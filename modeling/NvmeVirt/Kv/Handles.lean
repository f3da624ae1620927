import NvmeVirt.Kv.Iterator
import NvmeVirt.Library.Handles
import Mathlib.Data.List.Find
import Mathlib.Order.Interval.Finset.Nat

/-!
# Handles of iterators

Sixteen iterators can be open, under the numbers from 1 to 16, but the array is set up for the
numbers from 0 to 15, and a handle from the host may be any byte. A handle that an open answers is
unique as long as entry 16 happens to be `NULL`, the host opens no seventeenth iterator and names no
handle beyond 16.
-/

namespace NvmeVirt

open Checked Handles

/-! ## The array -/

/-- An entry of `iter_handle`; one that was never written may be a stray address. -/
inductive IterPtr
  | null
  | context (handle : KvIterContext)
  | stray

/-- The entry is `NULL`. -/
def IterPtr.isNull : IterPtr → Bool
  | .null => true
  | .context _ => false
  | .stray => false

theorem IterPtr.isNull_iff {p : IterPtr} : p.isNull = true ↔ p = .null := by
  cases p <;> simp [IterPtr.isNull]

/-- What an iterator command does not survive. -/
inductive IterFault
  /-- An entry outside of `iter_handle[17]`. -/
  | outOfRange
  /-- A stray address is dereferenced. -/
  | stray
  deriving DecidableEq, Repr

/-- `iter_handle`. -/
abbrev IterTable := Nat → IterPtr

/-- `kv_init_namespace` on an array with the content `mem`. -/
def initIterHandle (mem : IterTable) : IterTable := fun i => if i < 16 then .null else mem i

/-! ## Commands -/

/-- `is_kv_iter_req_cmd` and `is_kv_iter_read_cmd`. -/
inductive IterOpcode
  | iterReq
  | iterRead
  deriving DecidableEq, Repr

/-- `struct nvme_kv_iter_req_command`, as far as it is read. The handle of a read is at the same
place. -/
structure IterCommand where
  opcode : IterOpcode
  iterHandle : UInt8
  option : UInt8
  iterVal : Nat
  iterBitmask : Nat

/-- `ITER_OPTION_OPEN` and `ITER_OPTION_CLOSE`. -/
def iterOptionOpen : UInt8 := 1

@[inherit_doc iterOptionOpen] def iterOptionClose : UInt8 := 2

namespace IterTable

/-- `iter_handle[iter]`. -/
def load (t : IterTable) (iter : Nat) : Except IterFault IterPtr := do
  require (iter < 17) .outOfRange
  return t iter

/-- `iter_handle[iter] = p`. -/
def store (t : IterTable) (iter : Nat) (p : IterPtr) : Except IterFault IterTable := do
  require (iter < 17) .outOfRange
  return Function.update t iter p

/-- The loop of `kv_iter_open`, of as many rounds as entries are left. -/
def scan (t : IterTable) : Nat → Nat → Except IterFault (Option Nat)
  | 0, _ => .ok none
  | rounds + 1, iter => do
    let p ← t.load iter
    if p.isNull then return some iter else t.scan rounds (iter + 1)

/-- `kv_iter_open`. Without a free entry it answers 1 and leaves the status alone. -/
def kvIterOpen (t : IterTable) (buf : Nat → UInt8) (cmd : IterCommand) (status : Nat) :
    Except IterFault (KvResult × IterTable) := do
  match ← t.scan 16 1 with
  | none => return ({ result0 := 1, status, data := [] }, t)
  | some iter =>
    let t ← t.store iter (.context
      { buf, currentPos := 0, bitmask := cmd.iterBitmask, keyPrefix := cmd.iterVal })
    return ({ result0 := iter, status := 0, data := [] }, t)

/-- `kv_iter_close`. -/
def kvIterClose (t : IterTable) (cmd : IterCommand) : Except IterFault (KvResult × IterTable) := do
  let iter := cmd.iterHandle.toNat
  match ← t.load iter with
  | .null => return (.done 0, t)
  | .stray => throw .stray
  | .context _ =>
    let t ← t.store iter .null
    return (.done 0, t)

/-- `kv_iter_read`. -/
def kvIterRead (t : IterTable) (kv : KvFtl) (cmd : IterCommand) (status : Nat) :
    Except IterFault (KvResult × IterTable) := do
  let iter := cmd.iterHandle.toNat
  match ← t.load iter with
  | .null => return (.done status, t)
  | .stray => throw .stray
  | .context handle =>
    let (r, handle) := kv.readHandle handle
    let t ← t.store iter (.context handle)
    return ({ result0 := r.length, status := r.status, data := bytesAt r.data 0 r.length }, t)

/-- `__do_perform_kv_iter_io`. -/
def doPerformKvIterIo (t : IterTable) (kv : KvFtl) (buf : Nat → UInt8) (cmd : IterCommand)
    (status : Nat) : Except IterFault (KvResult × IterTable) :=
  match cmd.opcode with
  | .iterReq =>
    if cmd.option &&& iterOptionOpen ≠ 0 then t.kvIterOpen buf cmd status
    else if cmd.option &&& iterOptionClose ≠ 0 then t.kvIterClose cmd
    else return (.done status, t)
  | .iterRead => t.kvIterRead kv cmd status

end IterTable

namespace IterCommand

variable (cmd : IterCommand)

/-- The command opens an iterator. -/
def Opens : Prop := cmd.opcode = .iterReq ∧ cmd.option &&& iterOptionOpen ≠ 0

/-- The command closes an iterator. -/
def Closes : Prop :=
  cmd.opcode = .iterReq ∧ cmd.option &&& iterOptionOpen = 0 ∧ cmd.option &&& iterOptionClose ≠ 0

instance : Decidable cmd.Opens := inferInstanceAs (Decidable (_ ∧ _))

instance : Decidable cmd.Closes := inferInstanceAs (Decidable (_ ∧ _))

/-- The command names a handle. -/
def Names : Prop := cmd.Closes ∨ cmd.opcode = .iterRead

end IterCommand

/-- A command, with the table of keys that it finds and the buffer that `kmalloc` has for it. -/
structure IterCall where
  kv : KvFtl
  buf : Nat → UInt8
  cmd : IterCommand

/-- What a command does; the status is that of a command that succeeds. -/
def IterCall.perform (call : IterCall) (t : IterTable) : Except IterFault (KvResult × IterTable) :=
  t.doPerformKvIterIo call.kv call.buf call.cmd kvSuccess

/-! ## Live handles -/

/-- The handles that the host has open after the reply to a command. -/
def IterCommand.liveAfter (cmd : IterCommand) (live : Finset Nat) (reply : KvResult) : Finset Nat :=
  if cmd.Opens ∧ reply.status = kvSuccess then insert reply.result0 live
  else if cmd.Closes then live.erase cmd.iterHandle.toNat
  else live

/-- An open answers a handle from 1 to 16 that is not live. It fails only if all of them are, with a
status and a value that is not live. -/
def OpenAnswer (live : Finset Nat) (reply : KvResult) : Prop :=
  (reply.status = kvSuccess ∧ reply.result0 ∈ Finset.Icc 1 16 ∧ reply.result0 ∉ live) ∨
    (reply.status ≠ kvSuccess ∧ reply.result0 ∉ live ∧ Finset.Icc 1 16 ⊆ live)

/-- The entries that are not `NULL` are those of the live handles. -/
def IterTable.Matches (t : IterTable) (live : Finset Nat) : Prop :=
  Tracks (fun p : IterPtr => p ≠ .null) (Set.Iio 17) t live

namespace IterCall

/-- A command on the array, with the handles that are live. -/
def step (s : Finset Nat × IterTable) (call : IterCall) :
    Except IterFault (Finset Nat × IterTable) := do
  let (reply, t) ← call.perform s.2
  return (call.cmd.liveAfter s.1 reply, t)

/-- The command keeps to the array, the answer to an open is right, and the entries that are not
`NULL` are again those of the live handles. -/
def Sound (call : IterCall) (s : Finset Nat × IterTable) : Prop :=
  ∃ reply t, call.perform s.2 = .ok (reply, t) ∧ (call.cmd.Opens → OpenAnswer s.1 reply) ∧
    t.Matches (call.cmd.liveAfter s.1 reply)

/-- An open finds a free entry, and a handle that is named is one of the array. -/
structure Careful (call : IterCall) (s : Finset Nat × IterTable) : Prop where
  opens : call.cmd.Opens → ∃ iter ∈ Finset.Icc 1 16, s.2 iter = .null
  names : call.cmd.Names → call.cmd.iterHandle.toNat ≤ 16

end IterCall

/-- Handles are unique in a run from `kv_init_namespace` on. -/
structure HandlesUnique (mem : IterTable) (calls : List IterCall) : Prop where
  init : (initIterHandle mem).Matches ∅
  steps : Throughout IterCall.step (fun s call => call.Sound s) calls (∅, initIterHandle mem)

/-! ## What a command does -/

namespace IterTable

variable {t : IterTable} {iter rounds status : Nat} {buf : Nat → UInt8} {cmd : IterCommand}

theorem load_eq (t : IterTable) (h : iter < 17) : t.load iter = .ok (t iter) := by
  rw [load, require_pos h]
  rfl

theorem store_eq (t : IterTable) (h : iter < 17) (p : IterPtr) :
    t.store iter p = .ok (Function.update t iter p) := by
  rw [store, require_pos h]
  rfl

/-- The loop stops at the first free entry. -/
theorem scan_eq (h : iter + rounds ≤ 17) :
    t.scan rounds iter = .ok ((List.range' iter rounds).find? fun i => (t i).isNull) := by
  induction rounds generalizing iter with
  | zero => rfl
  | succ rounds ih =>
    rw [scan, t.load_eq (by omega), ok_bind, List.range'_succ, List.find?_cons]
    cases hnull : (t iter).isNull with
    | true => rfl
    | false => exact ih (by omega)

/-- With a free entry an open takes one. -/
theorem kvIterOpen_free (hfree : ∃ iter ∈ Finset.Icc 1 16, t iter = .null) :
    ∃ iter ∈ Finset.Icc 1 16, t iter = .null ∧ t.kvIterOpen buf cmd status =
      .ok ({ result0 := iter, status := 0, data := [] }, Function.update t iter (.context
        { buf, currentPos := 0, bitmask := cmd.iterBitmask, keyPrefix := cmd.iterVal })) := by
  obtain ⟨free, hrange, hfree⟩ := hfree
  rw [kvIterOpen, scan_eq (by simp)]
  cases hfind : (List.range' 1 16).find? fun i => (t i).isNull with
  | none =>
    have hmem : free ∈ List.range' 1 16 := by
      rw [List.mem_range'_1]
      rw [Finset.mem_Icc] at hrange
      omega
    have hused := List.find?_eq_none.mp hfind free hmem
    simp [hfree, IterPtr.isNull] at hused
  | some iter =>
    have hmem := List.mem_range'_1.mp (List.mem_of_find?_eq_some hfind)
    have hnull := List.find?_some hfind
    refine ⟨iter, ?_, IterPtr.isNull_iff.mp hnull, ?_⟩
    · rw [Finset.mem_Icc]
      omega
    · rw [ok_bind]
      dsimp only
      rw [t.store_eq (by omega)]
      rfl

/-- Without a free entry it answers 1 all the same. -/
theorem kvIterOpen_full (hfull : ∀ iter ∈ Finset.Icc 1 16, t iter ≠ .null) :
    t.kvIterOpen buf cmd status = .ok ({ result0 := 1, status, data := [] }, t) := by
  have hnone : ((List.range' 1 16).find? fun i => (t i).isNull) = none := by
    rw [List.find?_eq_none]
    intro iter hmem hnull
    rw [List.mem_range'_1] at hmem
    apply hfull iter _ (IterPtr.isNull_iff.mp hnull)
    rw [Finset.mem_Icc]
    omega
  rw [kvIterOpen, scan_eq (by simp), hnone]
  rfl

/-- No entry of the array is a stray address. -/
def Clean (t : IterTable) : Prop := ∀ iter < 17, t iter ≠ .stray

theorem Clean.update (h : t.Clean) (iter : Nat) {p : IterPtr} (hp : p ≠ .stray) :
    Clean (Function.update t iter p) := by
  intro i hi
  by_cases heq : i = iter
  · subst heq
    rwa [Function.update_self]
  · rw [Function.update_of_ne heq]
    exact h i hi

/-- A command that names a handle of the array closes or reads it if it is open. -/
theorem kvIterClose_cases (hclean : t.Clean) (hlt : cmd.iterHandle.toNat < 17) :
    (t cmd.iterHandle.toNat = .null ∧ t.kvIterClose cmd = .ok (.done 0, t)) ∨
      t.kvIterClose cmd = .ok (.done 0, Function.update t cmd.iterHandle.toNat .null) := by
  have hstray := hclean _ hlt
  rw [kvIterClose, t.load_eq hlt, ok_bind]
  cases hentry : t cmd.iterHandle.toNat with
  | null => exact Or.inl ⟨rfl, rfl⟩
  | context handle =>
    dsimp only
    rw [t.store_eq hlt]
    exact Or.inr rfl
  | stray => exact absurd hentry hstray

@[inherit_doc kvIterClose_cases]
theorem kvIterRead_cases (kv : KvFtl) (status : Nat) (hclean : t.Clean)
    (hlt : cmd.iterHandle.toNat < 17) :
    (t cmd.iterHandle.toNat = .null ∧ t.kvIterRead kv cmd status = .ok (.done status, t)) ∨
      ∃ handle handle' reply, t cmd.iterHandle.toNat = .context handle ∧
        t.kvIterRead kv cmd status =
          .ok (reply, Function.update t cmd.iterHandle.toNat (.context handle')) := by
  have hstray := hclean _ hlt
  rw [kvIterRead, t.load_eq hlt, ok_bind]
  cases hentry : t cmd.iterHandle.toNat with
  | null => exact Or.inl ⟨rfl, rfl⟩
  | context handle =>
    dsimp only
    rw [t.store_eq hlt]
    exact Or.inr ⟨handle, _, _, rfl, rfl⟩
  | stray => exact absurd hentry hstray

/-- The iterators of the array. -/
def view (t : IterTable) : IterHandles := fun iter =>
  match t iter with
  | .null => none
  | .context handle => some handle
  | .stray => none

theorem view_update (t : IterTable) (iter : Nat) (handle : KvIterContext) :
    view (Function.update t iter (.context handle)) =
      Function.update t.view iter (some handle) := by
  ext i : 1
  by_cases heq : i = iter
  · subst heq
    simp [view]
  · simp [view, Function.update_of_ne heq]

theorem Clean.isNone_view (h : t.Clean) (hlt : iter < 17) :
    (t.view iter).isNone = (t iter).isNull := by
  have hstray := h iter hlt
  rw [view]
  cases hentry : t iter with
  | null => rfl
  | context handle => rfl
  | stray => exact absurd hentry hstray

/-- An open of the array is an open of its iterators. -/
theorem Clean.kvIterOpen_view (h : t.Clean) (buf : Nat → UInt8) (cmd : IterCommand) (status : Nat) :
    ∃ reply t', t.kvIterOpen buf cmd status = .ok (reply, t') ∧
      NvmeVirt.kvIterOpen t.view buf cmd.iterBitmask cmd.iterVal = (reply.result0, t'.view) := by
  have hfind : ((List.range' 1 16).find? fun iter => (t.view iter).isNone) =
      (List.range' 1 16).find? fun iter => (t iter).isNull := by
    apply List.find?_congr
    intro iter hmem
    rw [List.mem_range'_1] at hmem
    exact h.isNone_view (by omega)
  rw [kvIterOpen, scan_eq (by simp), ok_bind, NvmeVirt.kvIterOpen, hfind]
  cases hfree : (List.range' 1 16).find? fun iter => (t iter).isNull with
  | none => exact ⟨_, _, rfl, rfl⟩
  | some iter =>
    have hmem := List.mem_range'_1.mp (List.mem_of_find?_eq_some hfree)
    dsimp only
    rw [t.store_eq (by omega), ← view_update]
    exact ⟨_, _, rfl, rfl⟩

/-- A read of the array is a read of its iterators. -/
theorem Clean.kvIterRead_view (h : t.Clean) (kv : KvFtl) (hlt : cmd.iterHandle.toNat < 17)
    (status : Nat) :
    ∃ r t', kv.kvIterRead cmd.iterHandle.toNat status t.view = (r, t'.view) ∧
      t.kvIterRead kv cmd status = .ok (
        { result0 := r.length, status := r.status, data := bytesAt r.data 0 r.length }, t') := by
  have hstray := h _ hlt
  rw [kvIterRead, t.load_eq hlt, ok_bind, KvFtl.kvIterRead]
  cases hentry : t cmd.iterHandle.toNat with
  | null =>
    have hview : t.view cmd.iterHandle.toNat = none := by simp [view, hentry]
    rw [hview]
    exact ⟨_, t, rfl, rfl⟩
  | context handle =>
    have hview : t.view cmd.iterHandle.toNat = some handle := by simp [view, hentry]
    rw [hview]
    dsimp only
    rw [t.store_eq hlt, ← view_update]
    exact ⟨_, _, rfl, rfl⟩
  | stray => exact absurd hentry hstray

/-- A handle beyond the array is an entry outside of it. -/
theorem names_outOfRange {call : IterCall} (hnames : call.cmd.Names)
    (hout : 16 < call.cmd.iterHandle.toNat) : call.perform t = .error .outOfRange := by
  have hload : t.load call.cmd.iterHandle.toNat = .error .outOfRange := by
    rw [load, require_neg (by omega)]
    rfl
  unfold IterCall.perform doPerformKvIterIo
  rcases hnames with ⟨hreq, hopen, hclose⟩ | hread
  · rw [hreq]
    dsimp only
    rw [if_neg (not_not.mpr hopen), if_pos hclose, kvIterClose, hload]
    rfl
  · rw [hread]
    dsimp only
    rw [kvIterRead, hload]
    rfl

end IterTable

namespace IterCall

variable {s s' : Finset Nat × IterTable} {call : IterCall} {t : IterTable}

/-- Which function performs the command. -/
theorem perform_cases (call : IterCall) (t : IterTable) :
    (call.cmd.Opens ∧ call.perform t = t.kvIterOpen call.buf call.cmd kvSuccess) ∨
      (call.cmd.Closes ∧ call.perform t = t.kvIterClose call.cmd) ∨
      (call.cmd.opcode = .iterRead ∧ call.perform t = t.kvIterRead call.kv call.cmd kvSuccess) ∨
      (¬ call.cmd.Opens ∧ ¬ call.cmd.Closes ∧ call.perform t = .ok (.done kvSuccess, t)) := by
  unfold IterCall.perform IterTable.doPerformKvIterIo
  cases hop : call.cmd.opcode with
  | iterRead => exact Or.inr (Or.inr (Or.inl ⟨rfl, rfl⟩))
  | iterReq =>
    dsimp only
    by_cases hopen : call.cmd.option &&& iterOptionOpen = 0
    · rw [if_neg (not_not.mpr hopen)]
      by_cases hclose : call.cmd.option &&& iterOptionClose = 0
      · rw [if_neg (not_not.mpr hclose)]
        exact Or.inr (Or.inr (Or.inr ⟨fun h => h.2 hopen, fun h => h.2.2 hclose, rfl⟩))
      · rw [if_pos hclose]
        exact Or.inr (Or.inl ⟨⟨hop, hopen, hclose⟩, rfl⟩)
    · rw [if_pos hopen]
      exact Or.inl ⟨⟨hop, hopen⟩, rfl⟩

theorem liveAfter_of_opens {cmd : IterCommand} {live : Finset Nat} {reply : KvResult}
    (hop : cmd.Opens) (hstatus : reply.status = kvSuccess) :
    cmd.liveAfter live reply = insert reply.result0 live := if_pos ⟨hop, hstatus⟩

theorem liveAfter_of_not_opens {cmd : IterCommand} {live : Finset Nat} {reply : KvResult}
    (hop : ¬ cmd.Opens) : cmd.liveAfter live reply =
      if cmd.Closes then live.erase cmd.iterHandle.toNat else live := if_neg fun h => hop h.1

/-- A careful command does what it should. -/
theorem Careful.performs (hc : call.Careful s) (hm : s.2.Matches s.1) (hclean : s.2.Clean) :
    ∃ reply t, call.perform s.2 = .ok (reply, t) ∧ (call.cmd.Opens → OpenAnswer s.1 reply) ∧
      t.Matches (call.cmd.liveAfter s.1 reply) ∧ t.Clean := by
  rcases call.perform_cases s.2 with ⟨hop, hperform⟩ | ⟨hclose, hperform⟩ | ⟨hread, hperform⟩ |
    ⟨hop, hclose, hperform⟩
  · obtain ⟨iter, hrange, hfree, hopen⟩ := IterTable.kvIterOpen_free (hc.opens hop)
    rw [hopen] at hperform
    refine ⟨_, _, hperform, fun _ => Or.inl ⟨rfl, hrange, ?_⟩, ?_, hclean.update iter (by simp)⟩
    · intro hlive
      rw [Finset.mem_Icc] at hrange
      exact (hm iter (Nat.lt_succ_of_le hrange.2)).mpr hlive hfree
    · rw [liveAfter_of_opens hop rfl]
      exact hm.opened iter (by simp)
  · have hlt := Nat.lt_succ_of_le (hc.names (Or.inl hclose))
    have hop : ¬ call.cmd.Opens := fun h => h.2 hclose.2.1
    rcases IterTable.kvIterClose_cases hclean hlt with ⟨hnull, hok⟩ | hok
    · refine ⟨_, _, hperform.trans hok, fun h => absurd h hop, ?_, hclean⟩
      rw [liveAfter_of_not_opens hop, if_pos hclose]
      exact hm.erase (not_not.mpr hnull)
    · refine ⟨_, _, hperform.trans hok, fun h => absurd h hop, ?_, hclean.update _ (by simp)⟩
      rw [liveAfter_of_not_opens hop, if_pos hclose]
      exact hm.closed _ (by simp)
  · have hlt := Nat.lt_succ_of_le (hc.names (Or.inr hread))
    have hop : ¬ call.cmd.Opens := fun h => by cases hread.symm.trans h.1
    have hclose : ¬ call.cmd.Closes := fun h => by cases hread.symm.trans h.1
    rcases IterTable.kvIterRead_cases call.kv kvSuccess hclean hlt with
      ⟨-, hok⟩ | ⟨handle, handle', reply, hentry, hok⟩
    · refine ⟨_, _, hperform.trans hok, fun h => absurd h hop, ?_, hclean⟩
      rwa [liveAfter_of_not_opens hop, if_neg hclose]
    · refine ⟨_, _, hperform.trans hok, fun h => absurd h hop, ?_, hclean.update _ (by simp)⟩
      rw [liveAfter_of_not_opens hop, if_neg hclose]
      exact hm.replaced (by simp [hentry]) (by simp)
  · refine ⟨_, _, hperform, fun h => absurd h hop, ?_, hclean⟩
    rwa [liveAfter_of_not_opens hop, if_neg hclose]

/-- Where the entries are those of the live handles, the careful commands are the sound ones. -/
theorem sound_iff (hm : s.2.Matches s.1) (hclean : s.2.Clean) : call.Sound s ↔ call.Careful s := by
  constructor
  · rintro ⟨reply, t, hperform, hanswer, -⟩
    constructor
    · intro hop
      by_contra hnone
      have hfull : ∀ iter ∈ Finset.Icc 1 16, s.2 iter ≠ .null := fun iter hrange hnull =>
        hnone ⟨iter, hrange, hnull⟩
      have hlive : 1 ∈ s.1 := (hm 1 (by simp)).mp (hfull 1 (by simp))
      have hopen : call.perform s.2 = s.2.kvIterOpen call.buf call.cmd kvSuccess := by
        rw [perform, IterTable.doPerformKvIterIo, hop.1]
        exact if_pos hop.2
      rw [hopen, IterTable.kvIterOpen_full hfull] at hperform
      cases hperform
      rcases hanswer hop with ⟨-, -, hfresh⟩ | ⟨hstatus, -⟩
      · exact hfresh hlive
      · exact hstatus rfl
    · intro hnames
      by_contra hout
      rw [IterTable.names_outOfRange hnames (Nat.lt_of_not_le hout)] at hperform
      cases hperform
  · intro hc
    obtain ⟨reply, t, hperform, hanswer, hmatches, -⟩ := hc.performs hm hclean
    exact ⟨reply, t, hperform, hanswer, hmatches⟩

/-- A careful command leads to entries that are those of the live handles. -/
theorem Careful.step (hc : call.Careful s) (hm : s.2.Matches s.1) (hclean : s.2.Clean)
    (hstep : IterCall.step s call = .ok s') : s'.2.Matches s'.1 ∧ s'.2.Clean := by
  obtain ⟨reply, t, hperform, -, hmatches, hclean'⟩ := hc.performs hm hclean
  rw [IterCall.step, hperform] at hstep
  cases hstep
  exact ⟨hmatches, hclean'⟩

end IterCall

/-! ## Runs -/

theorem initIterHandle_matches {mem : IterTable} :
    (initIterHandle mem).Matches ∅ ↔ mem 16 = .null := by
  constructor
  · intro h
    by_contra hne
    have hmem := (h 16 (by simp)).mp (by simpa [initIterHandle] using hne)
    simp at hmem
  · intro hnull i hi
    have hentry : initIterHandle mem i = .null := by
      unfold initIterHandle
      split_ifs with hlt
      · rfl
      · rw [Set.mem_Iio] at hi
        obtain rfl : i = 16 := by omega
        exact hnull
    simp [hentry]

/-- Handles are unique in a run if and only if entry 16 happens to be `NULL` at first and all
commands are careful: no open when sixteen iterators are open, and no handle beyond 16. -/
theorem handles_unique_iff (mem : IterTable) (calls : List IterCall) :
    HandlesUnique mem calls ↔ mem 16 = .null ∧
      Throughout IterCall.step (fun s call => call.Careful s) calls (∅, initIterHandle mem) := by
  have hrun : mem 16 = .null → (Throughout IterCall.step (fun s call => call.Sound s) calls
      (∅, initIterHandle mem) ↔
        Throughout IterCall.step (fun s call => call.Careful s) calls (∅, initIterHandle mem)) := by
    intro hnull
    have hinit := initIterHandle_matches.mpr hnull
    apply throughout_iff fun s => s.2.Matches s.1 ∧ s.2.Clean
    · exact fun call _ s hs => IterCall.sound_iff hs.1 hs.2
    · intro call _ s hs hsound s' hstep
      exact ((IterCall.sound_iff hs.1 hs.2).mp hsound).step hs.1 hs.2 hstep
    · refine ⟨hinit, ?_⟩
      intro i hi hstray
      have hused : initIterHandle mem i ≠ .null := fun h => by cases hstray.symm.trans h
      have hlive := (hinit i hi).mp hused
      simp at hlive
  constructor
  · rintro ⟨hinit, hsteps⟩
    have hnull := initIterHandle_matches.mp hinit
    exact ⟨hnull, (hrun hnull).mp hsteps⟩
  · rintro ⟨hnull, hcareful⟩
    exact ⟨initIterHandle_matches.mpr hnull, (hrun hnull).mpr hcareful⟩

/-- A command on an empty table. -/
def iterCall (opcode : IterOpcode) (iterHandle option : UInt8) : IterCall where
  kv := kvInitNamespace 2 64 fun _ => 0
  buf := fun _ => 0
  cmd := { opcode, iterHandle, option, iterVal := 0, iterBitmask := 0 }

/-- After some opens, the reply to another one, and whether its handle was live already. -/
def openAfter (mem : IterTable) (opens : Nat) : Except IterFault (KvResult × Bool) := do
  let call := iterCall .iterReq 0 iterOptionOpen
  let s ← (List.replicate opens call).foldlM IterCall.step (∅, initIterHandle mem)
  let (reply, _) ← call.perform s.2
  return (reply, decide (reply.result0 ∈ s.1))

/-- An open that answers with success and a live handle. -/
theorem not_handlesUnique_of_openAfter {mem : IterTable} {opens : Nat} {reply : KvResult}
    (h : openAfter mem opens = .ok (reply, true)) (hstatus : reply.status = kvSuccess) :
    ¬ HandlesUnique mem (List.replicate (opens + 1) (iterCall .iterReq 0 iterOptionOpen)) := by
  intro hunique
  obtain ⟨s, hrun, h⟩ := bind_eq_ok.mp h
  obtain ⟨⟨reply', t⟩, hperform, h⟩ := bind_eq_ok.mp h
  have h := Except.ok.inj h
  rw [Prod.mk.injEq, decide_eq_true_eq] at h
  obtain ⟨rfl, hlive⟩ := h
  have hsteps := hunique.steps
  rw [List.replicate_succ'] at hsteps
  obtain ⟨reply, t', hperform', hanswer, -⟩ := hsteps.at_append hrun
  cases hperform.symm.trans hperform'
  rcases hanswer ⟨rfl, by decide⟩ with ⟨-, -, hfresh⟩ | ⟨hfail, -⟩
  · exact hfresh hlive
  · exact hfail hstatus

/-- The seventeenth open answers the handle 1 once more, and if entry 16 is not `NULL` at first the
sixteenth does. A handle beyond 16 is an entry outside of the array. -/
theorem handles_clash :
    openAfter (fun _ => .null) 16 = .ok ({ result0 := 1, status := kvSuccess, data := [] }, true) ∧
    ¬ HandlesUnique (fun _ => .null)
      (List.replicate 17 (iterCall .iterReq 0 iterOptionOpen)) ∧
    openAfter (fun _ => .stray) 15 = .ok ({ result0 := 1, status := kvSuccess, data := [] }, true) ∧
    ¬ HandlesUnique (fun _ => .stray)
      (List.replicate 16 (iterCall .iterReq 0 iterOptionOpen)) ∧
    ((iterCall .iterReq 17 iterOptionClose).perform (initIterHandle fun _ => .null)).map Prod.fst =
      .error .outOfRange ∧
    ((iterCall .iterRead 255 0).perform (initIterHandle fun _ => .null)).map Prod.fst =
      .error .outOfRange ∧
    ¬ HandlesUnique (fun _ => .null) [iterCall .iterReq 17 iterOptionClose] := by
  have hfull : openAfter (fun _ => .null) 16 =
      .ok ({ result0 := 1, status := kvSuccess, data := [] }, true) := by decide +kernel
  have hstray : openAfter (fun _ => .stray) 15 =
      .ok ({ result0 := 1, status := kvSuccess, data := [] }, true) := by decide +kernel
  refine ⟨hfull, not_handlesUnique_of_openAfter hfull rfl, hstray,
    not_handlesUnique_of_openAfter hstray rfl, by decide +kernel, by decide +kernel, ?_⟩
  intro hunique
  obtain ⟨reply, t, hperform, -⟩ := hunique.steps.1
  cases hperform

end NvmeVirt
