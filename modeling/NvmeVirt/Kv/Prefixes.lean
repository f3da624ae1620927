import NvmeVirt.Kv.Steps
import Mathlib.Data.List.GetD

/-!
# Keys of different lengths

An entry does not record the length of its key, and the search compares as many bytes as the key
that is looked up has. So a key is confused with a longer one that it is a prefix of, and with a
shorter one that zeros continue, when the other key lies on its chain in front of its own entry.
The owner of a slot is the key that its entry was created for; the code does not keep it.
-/

namespace NvmeVirt

open Checked

/-- `hash_function` of the bytes of a key. -/
def hashBytes (k : List UInt8) : Nat :=
  k.foldl (fun h b => u32 (h * 16777619) ^^^ b.toNat) 2166136261

theorem hashBytes_keyBytes (n : Nat) (key : Nat → UInt8) :
    hashBytes (keyBytes n key) = hashFunction key n := by
  simp [hashBytes, keyBytes, bytesAt, hashFunction, List.foldl_map]

theorem getD_keyBytes {n i : Nat} (key : Nat → UInt8) (hi : i < n) :
    (keyBytes n key).getD i 0 = key i := by
  simp [keyBytes, bytesAt, hi]

theorem length_keyBytes (n : Nat) (key : Nat → UInt8) : (keyBytes n key).length = n :=
  length_bytesAt key 0 n

/-- The comparison takes the entry of the key `o` for one of the key `k`: `k` starts like `o`, continued
with zeros. -/
def Aliases (k o : List UInt8) : Prop := k ≠ o ∧ ∀ i < k.length, k.getD i 0 = o.getD i 0

instance (k o : List UInt8) : Decidable (Aliases k o) := inferInstanceAs (Decidable (_ ∧ _))

/-- A key that is a prefix of another one is taken for it. -/
theorem aliases_of_prefix {k o : List UInt8} (h : k <+: o) (hne : k ≠ o) : Aliases k o := by
  obtain ⟨rest, rfl⟩ := h
  refine ⟨hne, fun i hi => ?_⟩
  rw [List.getD_eq_getElem?_getD, List.getD_eq_getElem?_getD, List.getElem?_append_left hi]

/-! ## The log of a run -/

/-- The store with the keys that were stored, and the key for which each entry was created. -/
structure KeyLog where
  kv : KvFtl
  owner : Nat → List UInt8
  stored : List (List UInt8)

namespace KeyLog

variable {g g' : KeyLog} {cmd : KvCommand} {t : Nat}

/-- A new table. -/
def init (slots size : Nat) (storage : Nat → UInt8) : KeyLog where
  kv := kvInitNamespace slots size storage
  owner := fun _ => []
  stored := []

/-- One command, with the log of what it stores and of the entry that it creates. -/
def step (g : KeyLog) (cmd : KvCommand) : Except KvFault KeyLog := do
  let kv ← g.kv.step cmd
  let key := keyBytes cmd.keyLength cmd.key
  return {
    kv := kv
    owner := fun s => if kv.Live s ∧ ¬ g.kv.Live s then key else g.owner s
    stored := if cmd.opcode = .store then key :: g.stored else g.stored }

/-- The lookup of a command is right: it finds an entry iff its key was stored, and finds the entry
that was created for it. -/
def Exact (g : KeyLog) (cmd : KvCommand) : Prop :=
  ∃ found, g.kv.search cmd = .ok found ∧
    (found.isSome = true ↔ keyBytes cmd.keyLength cmd.key ∈ g.stored) ∧
    ∀ t, found = some t → g.owner t = keyBytes cmd.keyLength cmd.key

/-- On the chain of its key, and in front of the key's own entry, a command meets the entry of another
key that is taken for it. -/
def Confused (g : KeyLog) (cmd : KvCommand) : Prop :=
  ∃ t, g.kv.Live t ∧ g.kv.Leads (g.kv.getHashSlot cmd.key cmd.keyLength) t ∧
    Aliases (keyBytes cmd.keyLength cmd.key) (g.owner t) ∧
    ∀ u, g.kv.Live u → g.owner u = keyBytes cmd.keyLength cmd.key → g.kv.Leads t u

/-- What holds as long as no command is confused: every key that was stored has one entry, on its own
chain, and a key in the table is continued with zeros. -/
structure Logged (g : KeyLog) : Prop where
  ordered : ∃ age now, g.kv.Ordered age now
  reached : ∀ t, g.kv.Live t → g.kv.Leads (hashBytes (g.owner t) % g.kv.hashSlots) t
  padded : ∀ t, g.kv.Live t → ∀ i, (g.kv.kvMappingTable t).key i = (g.owner t).getD i 0
  blank : ∀ t < g.kv.hashSlots, ¬ g.kv.Live t → ∀ i, (g.kv.kvMappingTable t).key i = 0
  unique : ∀ s t, g.kv.Live s → g.kv.Live t → g.owner s = g.owner t → s = t
  stored : ∀ k, k ∈ g.stored ↔ ∃ t, g.kv.Live t ∧ g.owner t = k

/-- The comparison with an entry in use. -/
theorem Logged.sameBytes_iff (h : g.Logged) (ht : g.kv.Live t) :
    sameBytes cmd.keyLength cmd.key (g.kv.kvMappingTable t).key = true ↔
      g.owner t = keyBytes cmd.keyLength cmd.key ∨
        Aliases (keyBytes cmd.keyLength cmd.key) (g.owner t) := by
  have hbytes : sameBytes cmd.keyLength cmd.key (g.kv.kvMappingTable t).key = true ↔
      ∀ i < cmd.keyLength, (keyBytes cmd.keyLength cmd.key).getD i 0 = (g.owner t).getD i 0 := by
    rw [KvFtl.sameBytes_iff]
    apply forall_congr'
    intro i
    apply forall_congr'
    intro hi
    rw [h.padded t ht, getD_keyBytes _ hi]
  rw [hbytes, Aliases, length_keyBytes]
  constructor
  · intro hsame
    by_cases heq : g.owner t = keyBytes cmd.keyLength cmd.key
    · exact Or.inl heq
    · exact Or.inr ⟨Ne.symm heq, hsame⟩
  · rintro (heq | ⟨-, hsame⟩)
    · intro i _
      rw [heq]
    · exact hsame

/-- The chain of a stored key leads to its entry. -/
theorem Logged.leads_own (h : g.Logged) (ht : g.kv.Live t)
    (hown : g.owner t = keyBytes cmd.keyLength cmd.key) :
    g.kv.Leads (g.kv.getHashSlot cmd.key cmd.keyLength) t := by
  have hreach := h.reached t ht
  rwa [hown, hashBytes_keyBytes] at hreach

/-- A lookup is right exactly when it is not confused. -/
theorem Logged.exact_iff (h : g.Logged) (cmd : KvCommand) : g.Exact cmd ↔ ¬ g.Confused cmd := by
  obtain ⟨age, now, hord⟩ := h.ordered
  have hslot : g.kv.getHashSlot cmd.key cmd.keyLength < g.kv.hashSlots := Nat.mod_lt _ hord.pos
  have hfuel := g.kv.ahead_le age (g.kv.getHashSlot cmd.key cmd.keyLength)
  obtain ⟨found, hrun, hfound⟩ :=
    @KvFtl.Ordered.searchLoop_spec _ cmd.keyLength (g.kv.hashSlots + 1) _ cmd.key _ _ hord hslot
      (by omega)
  have hexact : g.Exact cmd ↔
      (found.isSome = true ↔ keyBytes cmd.keyLength cmd.key ∈ g.stored) ∧
        ∀ t, found = some t → g.owner t = keyBytes cmd.keyLength cmd.key := by
    constructor
    · rintro ⟨found', hrun', hright⟩
      cases hrun.symm.trans hrun'
      exact hright
    · intro hright
      exact ⟨found, hrun, hright⟩
  rw [hexact]
  cases found with
  | none =>
    have hnone : ∀ t, g.kv.Live t → g.kv.Leads (g.kv.getHashSlot cmd.key cmd.keyLength) t →
        ¬ (g.owner t = keyBytes cmd.keyLength cmd.key ∨
          Aliases (keyBytes cmd.keyLength cmd.key) (g.owner t)) := by
      intro t ht hleads hsame
      have hfalse := hfound t hleads ht
      rw [(h.sameBytes_iff ht).mpr hsame] at hfalse
      cases hfalse
    constructor
    · rintro - ⟨t, ht, hleads, halias, -⟩
      exact hnone t ht hleads (Or.inr halias)
    · intro _
      refine ⟨⟨by simp, fun hmem => ?_⟩, by simp⟩
      obtain ⟨t, ht, hown⟩ := (h.stored _).mp hmem
      exact absurd (Or.inl hown) (hnone t ht (h.leads_own ht hown))
  | some t =>
    obtain ⟨hleads, ht, hsame⟩ := hfound
    constructor
    · rintro ⟨-, hown⟩ ⟨u, hu, huleads, halias, hfirst⟩
      -- The entry that confuses lies in front of the one found, and the one found is the first.
      have hut := hfirst t ht (hown t rfl)
      have htu := KvFtl.searchLoop_first hrun huleads ((h.sameBytes_iff hu).mpr (Or.inr halias))
      have hne : t ≠ u := by
        rintro rfl
        exact halias.1 (hown t rfl).symm
      rcases hord.age_le hut ht with heq | hlt
      · exact hne heq.symm
      · rcases hord.age_le htu hu with heq | hlt'
        · exact hne heq
        · omega
    · intro hclear
      have hown : g.owner t = keyBytes cmd.keyLength cmd.key := by
        by_contra hne
        apply hclear
        refine ⟨t, ht, hleads, ((h.sameBytes_iff ht).mp hsame).resolve_left hne,
          fun u hu hown => ?_⟩
        exact KvFtl.searchLoop_first hrun (h.leads_own hu hown)
          ((h.sameBytes_iff hu).mpr (Or.inl hown))
      refine ⟨⟨fun _ => (h.stored _).mpr ⟨t, ht, hown⟩, by simp⟩, fun u hu => ?_⟩
      cases hu
      exact hown

/-! ## Runs -/

theorem logged_init {slots : Nat} (hslots : 0 < slots) (size : Nat) (storage : Nat → UInt8) :
    (init slots size storage).Logged := by
  have hrep := KvFtl.represents_init hslots size 0 0 storage
  have hdead : ∀ t, ¬ (init slots size storage).kv.Live t := by
    intro t ht
    have hlt : t < slots := ht.1
    exact ht.2 (by simp [init, kvInitNamespace, hlt])
  refine ⟨hrep.sound.ordered, fun t ht => absurd ht (hdead t), fun t ht => absurd ht (hdead t),
    fun t ht _ i => ?_, fun s _ hs => absurd hs (hdead s), fun k => ⟨by simp [init], ?_⟩⟩
  · have hlt : t < slots := ht
    simp [init, kvInitNamespace, hlt]
  · rintro ⟨t, ht, -⟩
    exact absurd ht (hdead t)

/-- A command that keeps the chains. -/
theorem Logged.congr {kv : KvFtl} {stored : List (List UInt8)} (h : g.Logged)
    (hsame : g.kv.SameChains kv) (hstored : ∀ k, k ∈ stored ↔ k ∈ g.stored) :
    ({ kv, owner := g.owner, stored } : KeyLog).Logged := by
  obtain ⟨age, now, hord⟩ := h.ordered
  constructor
  · exact ⟨age, now, hsame.ordered hord⟩
  · intro t ht
    rw [hsame.hashSlots, hsame.leads_iff]
    exact h.reached t ((hsame.live_iff t).mp ht)
  · intro t ht i
    rw [hsame.key]
    exact h.padded t ((hsame.live_iff t).mp ht) i
  · intro t ht hdead i
    rw [hsame.hashSlots] at ht
    rw [hsame.key]
    exact h.blank t ht (fun hlive => hdead ((hsame.live_iff t).mpr hlive)) i
  · intro s t hs ht
    exact h.unique s t ((hsame.live_iff s).mp hs) ((hsame.live_iff t).mp ht)
  · intro k
    simp only [hstored, h.stored, hsame.live_iff]

/-- An entry for a key that was not stored. -/
theorem Logged.insert {kv : KvFtl} {offset y : Nat} {link : Option Nat} (h : g.Logged)
    (hins : g.kv.Inserted kv cmd offset y link)
    (hnew : keyBytes cmd.keyLength cmd.key ∉ g.stored) :
    ({ kv := kv
       owner := Function.update g.owner y (keyBytes cmd.keyLength cmd.key)
       stored := keyBytes cmd.keyLength cmd.key :: g.stored } : KeyLog).Logged := by
  obtain ⟨age, now, hord⟩ := h.ordered
  have hne : ∀ t, g.kv.Live t → t ≠ y := fun t ht he => hins.dead (he ▸ ht)
  have hfresh : ∀ t, g.kv.Live t → g.owner t ≠ keyBytes cmd.keyLength cmd.key := fun t ht he =>
    hnew ((h.stored _).mpr ⟨t, ht, he⟩)
  constructor <;> dsimp only
  · exact ⟨_, _, hins.toTaken.ordered hord⟩
  · intro t ht
    rcases hins.live_iff.mp ht with rfl | ht
    · rw [Function.update_self, hashBytes_keyBytes, hins.slots]
      exact hins.toTaken.leads_new hins.reach
    · rw [Function.update_of_ne (hne t ht), hins.slots]
      exact hins.toTaken.leads (h.reached t ht) ht
  · intro t ht i
    rcases hins.live_iff.mp ht with rfl | ht
    · rw [Function.update_self, hins.newKey, memcpyAt, Nat.zero_add, Nat.sub_zero]
      split_ifs with hi
      · exact (getD_keyBytes cmd.key hi.2).symm
      · rw [h.blank _ hins.lt hins.dead, List.getD_eq_default]
        rw [length_keyBytes]
        omega
    · rw [Function.update_of_ne (hne t ht), hins.key t (hne t ht)]
      exact h.padded t ht i
  · intro t ht hdead i
    have hty : t ≠ y := by
      rintro rfl
      exact hdead (hins.live_iff.mpr (Or.inl rfl))
    rw [hins.slots] at ht
    rw [hins.key t hty]
    exact h.blank t ht (fun hlive => hdead (hins.live_iff.mpr (Or.inr hlive))) i
  · intro s t hs ht heq
    rcases hins.live_iff.mp hs with rfl | hs <;> rcases hins.live_iff.mp ht with rfl | ht
    · rfl
    · rw [Function.update_self, Function.update_of_ne (hne t ht)] at heq
      exact absurd heq.symm (hfresh t ht)
    · rw [Function.update_self, Function.update_of_ne (hne s hs)] at heq
      exact absurd heq (hfresh s hs)
    · rw [Function.update_of_ne (hne s hs), Function.update_of_ne (hne t ht)] at heq
      exact h.unique s t hs ht heq
  · intro k
    rw [List.mem_cons, h.stored]
    constructor
    · rintro (rfl | ⟨t, ht, hown⟩)
      · exact ⟨y, hins.live_iff.mpr (Or.inl rfl), Function.update_self ..⟩
      · refine ⟨t, hins.live_iff.mpr (Or.inr ht), ?_⟩
        rwa [Function.update_of_ne (hne t ht)]
    · rintro ⟨t, ht, hown⟩
      rcases hins.live_iff.mp ht with rfl | ht
      · rw [Function.update_self] at hown
        exact Or.inl hown.symm
      · rw [Function.update_of_ne (hne t ht)] at hown
        exact Or.inr ⟨t, ht, hown⟩

/-- A command whose lookup is right keeps the log in order. -/
theorem Logged.step (h : g.Logged) (hdel : cmd.opcode ≠ .delete) (hexact : g.Exact cmd)
    (hrun : g.step cmd = .ok g') : g'.Logged := by
  obtain ⟨age, now, hord⟩ := h.ordered
  obtain ⟨kv, hkv, hrun⟩ := bind_eq_ok.mp hrun
  cases hrun
  obtain ⟨found, hsearch, hstored, -⟩ := hexact
  by_cases hcreate : cmd.opcode = .store ∧ found = none
  · obtain ⟨hop, rfl⟩ := hcreate
    obtain ⟨y, link, hins⟩ := hord.step_new hsearch hop hkv
    have hsame := g.kv.sameChains_allocated cmd
    have hmid : ({ kv := g.kv.allocated cmd, owner := g.owner, stored := g.stored } :
        KeyLog).Logged := h.congr hsame fun _ => Iff.rfl
    have hnew : keyBytes cmd.keyLength cmd.key ∉ g.stored := fun hmem =>
      absurd (hstored.mpr hmem) (by simp)
    have howner : (fun s => if kv.Live s ∧ ¬ g.kv.Live s then keyBytes cmd.keyLength cmd.key
        else g.owner s) = Function.update g.owner y (keyBytes cmd.keyLength cmd.key) := by
      ext s : 1
      have hlive : kv.Live s ∧ ¬ g.kv.Live s ↔ s = y := by
        rw [hins.live_iff, hsame.live_iff]
        constructor
        · rintro ⟨hs | hs, hdead⟩
          · exact hs
          · exact absurd hs hdead
        · rintro rfl
          exact ⟨Or.inl rfl, fun hlive => hins.dead ((hsame.live_iff _).mpr hlive)⟩
      rw [Function.update_apply]
      simp only [hlive]
    rw [howner, if_pos hop]
    exact hmid.insert hins hnew
  · have hold : cmd.opcode = .store → found.isSome = true := fun hop => by
      rw [Option.isSome_iff_ne_none]
      exact fun hnone => hcreate ⟨hop, hnone⟩
    have hslot : g.kv.getHashSlot cmd.key cmd.keyLength < g.kv.hashSlots := Nat.mod_lt _ hord.pos
    have hfuel := g.kv.ahead_le age (g.kv.getHashSlot cmd.key cmd.keyLength)
    obtain ⟨found', hsearch', hfound⟩ := @KvFtl.Ordered.searchLoop_spec _ cmd.keyLength
      (g.kv.hashSlots + 1) _ cmd.key _ _ hord hslot (by omega)
    cases hsearch.symm.trans hsearch'
    have hlive : ∀ t, found = some t → g.kv.Live t := by
      rintro t rfl
      exact hfound.2.1
    have hsame := KvFtl.step_sameChains hsearch hdel hold hlive hkv
    have howner : (fun s => if kv.Live s ∧ ¬ g.kv.Live s then keyBytes cmd.keyLength cmd.key
        else g.owner s) = g.owner := by
      ext s : 1
      rw [if_neg]
      rintro ⟨hs, hdead⟩
      exact hdead ((hsame.live_iff s).mp hs)
    rw [howner]
    apply h.congr hsame
    intro k
    split_ifs with hop
    · rw [List.mem_cons]
      constructor
      · rintro (rfl | hmem)
        · exact hstored.mp (hold hop)
        · exact hmem
      · exact Or.inr
    · rfl

end KeyLog

/-- In every run without deletes the lookups of all commands are right if and only if no command is
confused: it meets, in front of its own entry, no entry of another key that is taken for its own. -/
theorem keys_confused_iff (slots size : Nat) (storage : Nat → UInt8) (cmds : List KvCommand)
    (hslots : 0 < slots) (hdel : ∀ cmd ∈ cmds, cmd.opcode ≠ .delete) :
    Throughout KeyLog.step KeyLog.Exact cmds (KeyLog.init slots size storage) ↔
      Throughout KeyLog.step (fun g cmd => ¬ g.Confused cmd) cmds
        (KeyLog.init slots size storage) := by
  apply throughout_iff fun g => g.Logged
  · exact fun cmd _ g hg => hg.exact_iff cmd
  · exact fun cmd hcmd g hg hexact g' hstep => hg.step (hdel cmd hcmd) hexact hstep
  · exact KeyLog.logged_init hslots size storage

/-- A command on a key of at most two bytes and a value of four bytes. -/
def shortKeyCommand (opcode : KvOpcode) (k0 k1 : UInt8) (keyLen : Nat) (value : UInt8) : KvCommand where
  opcode := opcode
  key := fun i => if i = 0 then k0 else k1
  keyLen := keyLen
  valueLen := 1
  data := fun _ => value

/-- A key that is stored and looked up. -/
theorem keys_confused_iff_one : Throughout KeyLog.step KeyLog.Exact
    [shortKeyCommand .store 1 2 1 7, shortKeyCommand .retrieve 1 2 1 0]
    (KeyLog.init 3 64 fun _ => 0) := by
  have hinit := @KeyLog.logged_init 3 (by simp) 64 fun _ => 0
  have hdel : ∀ cmd ∈ [shortKeyCommand .store 1 2 1 7, shortKeyCommand .retrieve 1 2 1 0],
      cmd.opcode ≠ .delete := by
    simp [shortKeyCommand]
  apply (keys_confused_iff 3 64 (fun _ => 0) _ (by simp) hdel).mpr
  have hfirst : ¬ (KeyLog.init 3 64 fun _ => 0).Confused (shortKeyCommand .store 1 2 1 7) := by
    rintro ⟨t, ht, -⟩
    obtain ⟨k, hk⟩ : ∃ k, k ∈ (KeyLog.init 3 64 fun _ => 0).stored :=
      ⟨_, (hinit.stored _).mpr ⟨t, ht, rfl⟩⟩
    cases hk
  refine ⟨hfirst, fun g hg => ⟨?_, fun _ _ => trivial⟩⟩
  -- The only key that is stored is the one that is looked up.
  rintro ⟨t, ht, -, ⟨hne, -⟩, -⟩
  have hlog := hinit.step (by simp [shortKeyCommand]) ((hinit.exact_iff _).mpr hfirst) hg
  obtain ⟨kv, -, hg⟩ := bind_eq_ok.mp hg
  cases hg
  have hmem : _ ∈ [keyBytes 2 (shortKeyCommand .store 1 2 1 7).key] :=
    (hlog.stored _).mpr ⟨t, ht, rfl⟩
  exact hne (List.mem_singleton.mp hmem).symm

/-- Two keys of one chain in a table of three slots, the second a prefix of the first: the second is
found before it is stored, and storing it overwrites the value of the first. -/
theorem prefix_overwrites :
    ((kvInitNamespace 3 64 fun _ => 0).run
      [shortKeyCommand .store 2 3 1 7, shortKeyCommand .exist 2 3 0 0,
        shortKeyCommand .store 2 3 0 8, shortKeyCommand .retrieve 2 3 1 0]).map Prod.fst =
    .ok [.done kvSuccess, .done kvSuccess, .done kvSuccess,
      { result0 := 4, status := kvSuccess, data := [8, 8, 8, 8] }] := by
  decide +kernel

end NvmeVirt
