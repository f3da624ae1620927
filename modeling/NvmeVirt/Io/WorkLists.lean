import NvmeVirt.Io.WorkQueue
import Mathlib.Data.List.TakeWhile

/-!
# The two lists of a work queue

`WorkChains` reads the links of a worker as a list of free entries and a doubly linked
list of entries in flight. Insertion and reclaiming keep it, and say where an entry goes.
-/

namespace NvmeVirt

open Linked

/-- The links of a worker: the free entries in order and the entries in flight in order. -/
structure WorkChains (w : NvmevIoWorker) (free io : List Nat) : Prop where
  free_seg : Seg w.next w.freeSeq noEntry free
  free_end : free.getLast? = some w.freeSeqEnd
  io_dll : Dll w.next w.prev noEntry w.ioSeq (io.getLast?.getD noEntry) io
  io_end : ∀ e, io.getLast? = some e → w.ioSeqEnd = e

/-- Every entry is in exactly one of the two lists, once. -/
def Partition (free io : List Nat) : Prop := (free ++ io).Perm (List.range nrMaxParallelIo)

theorem nrMaxParallelIo_lt_noEntry : nrMaxParallelIo < noEntry := by decide

namespace Partition

variable {free io : List Nat}

theorem nodup (h : Partition free io) : (free ++ io).Nodup :=
  h.nodup_iff.mpr List.nodup_range

theorem mem_iff (h : Partition free io) {e : Nat} :
    e ∈ free ∨ e ∈ io ↔ e < nrMaxParallelIo := by
  rw [← List.mem_append, List.Perm.mem_iff h, List.mem_range]

theorem lt_of_mem_io (h : Partition free io) {e : Nat} (he : e ∈ io) : e < nrMaxParallelIo :=
  h.mem_iff.mp (.inr he)

theorem lt_of_mem_free (h : Partition free io) {e : Nat} (he : e ∈ free) : e < nrMaxParallelIo :=
  h.mem_iff.mp (.inl he)

theorem noEntry_notMem_io (h : Partition free io) : noEntry ∉ io := fun hmem =>
  absurd (h.lt_of_mem_io hmem) (Nat.not_lt_of_lt nrMaxParallelIo_lt_noEntry)

theorem length_io_le (h : Partition free io) : io.length ≤ nrMaxParallelIo := by
  have hlen := h.length_eq
  rw [List.length_append, List.length_range] at hlen
  omega

/-- The free list and the reclaimed prefix exchange places. -/
theorem reclaim {pre rest : List Nat} (h : Partition free (pre ++ rest)) :
    Partition (free ++ pre) rest := by
  unfold Partition at h ⊢
  rwa [List.append_assoc]

/-- The first free entry is moved into the other list. -/
theorem insert {e : Nat} {before after : List Nat}
    (h : Partition (e :: free) (before ++ after)) : Partition free (before ++ e :: after) := by
  refine List.Perm.trans ?_ h
  rw [← List.append_assoc, List.cons_append, ← List.append_assoc]
  exact List.perm_middle

end Partition

namespace NvmevIoWorker

variable {w : NvmevIoWorker} {free io : List Nat}

/-! ## The search loop -/

/-- The search skips the entries at the end of the list that do not stop it. -/
theorem insertSearch_eq {t fuel curr : Nat} {l : List Nat} (h : Seg w.prev curr noEntry l)
    (hnil : noEntry ∉ l) (hfuel : l.length ≤ fuel) :
    w.insertSearch t fuel curr = (l.dropWhile fun e => !w.stopsAt t e).head?.getD noEntry := by
  induction l generalizing fuel curr with
  | nil =>
    obtain rfl : curr = noEntry := h
    cases fuel with
    | zero => rfl
    | succ fuel => simp [insertSearch]
  | cons x l ih =>
    obtain ⟨rfl, hl⟩ := h
    have hx : curr ≠ noEntry := fun hx => hnil (hx ▸ List.mem_cons_self ..)
    cases fuel with
    | zero => exact absurd hfuel (by simp)
    | succ fuel =>
      rw [insertSearch, if_pos hx]
      by_cases hs : w.stopsAt t curr = true
      · simp [hs]
      · rw [if_neg hs, ih hl (fun hmem => hnil (List.mem_cons_of_mem _ hmem))
          (by simpa using hfuel)]
        simp [hs]

/-- The scan of `__reclaim_completed_reqs` finds the last entry of the done prefix. -/
theorem reclaimScan_eq {fuel curr last : Nat} {l : List Nat} (h : Seg w.next curr noEntry l)
    (hnil : noEntry ∉ l) (hfuel : l.length ≤ fuel) :
    w.reclaimScan fuel curr last = (l.takeWhile w.isDone).getLast?.getD last := by
  induction l generalizing fuel curr last with
  | nil =>
    obtain rfl : curr = noEntry := h
    cases fuel with
    | zero => rfl
    | succ fuel => simp [reclaimScan]
  | cons x l ih =>
    obtain ⟨rfl, hl⟩ := h
    have hx : curr ≠ noEntry := fun hx => hnil (hx ▸ List.mem_cons_self ..)
    cases fuel with
    | zero => exact absurd hfuel (by simp)
    | succ fuel =>
      by_cases hd : w.isDone curr = true
      · rw [reclaimScan, if_pos ⟨hx, hd⟩, ih hl (fun hmem => hnil (List.mem_cons_of_mem _ hmem))
          (by simpa using hfuel), List.takeWhile_cons_of_pos hd, List.getLast?_cons]
        rfl
      · rw [reclaimScan, if_neg fun hc => hd hc.2, List.takeWhile_cons_of_neg hd]
        rfl

end NvmevIoWorker

/-! ## Insertion -/

namespace WorkChains

variable {w w' : NvmevIoWorker} {free io : List Nat}

/-- The end of the list in flight, when it is not empty. -/
theorem getLast?_eq (h : WorkChains w free io) (hne : io ≠ []) :
    io.getLast? = some w.ioSeqEnd := by
  obtain ⟨e, he⟩ := Option.isSome_iff_exists.mp (List.getLast?_isSome.mpr hne)
  rw [he, h.io_end e he]

/-- The list in flight with its end, when it is not empty. -/
theorem dll (h : WorkChains w free io) (hne : io ≠ []) :
    Dll w.next w.prev noEntry w.ioSeq w.ioSeqEnd io := by
  have hdll := h.io_dll
  rwa [h.getLast?_eq hne, Option.getD_some] at hdll

/-- A list in flight that is not empty. -/
theorem of_dll (hfree : Seg w.next w.freeSeq noEntry free)
    (hend : free.getLast? = some w.freeSeqEnd)
    (hdll : Dll w.next w.prev noEntry w.ioSeq w.ioSeqEnd io) (hlast : io.getLast? = some w.ioSeqEnd) :
    WorkChains w free io := by
  refine ⟨hfree, hend, ?_, fun e he => ?_⟩
  · rw [hlast]
    exact hdll
  · rw [hlast] at he
    exact Option.some_inj.mp he

end WorkChains

/-- An entry that is in neither list and whose links are cleared. -/
structure Fresh (w : NvmevIoWorker) (free io : List Nat) (entry : Nat) : Prop where
  nodup : (entry :: (free ++ io)).Nodup
  next_eq : w.next entry = noEntry
  prev_eq : w.prev entry = noEntry

namespace WorkChains

open NvmevIoWorker

variable {w : NvmevIoWorker} {free : List Nat} {entry : Nat}

/-- Links written at the entry and in the list in flight leave the free list alone. -/
theorem free_seg_congr {io : List Nat} {f : Nat → Nat} (h : WorkChains w free io)
    (hfresh : Fresh w free io entry) (hf : ∀ e, e ≠ entry → e ∉ io → f e = w.next e) :
    Seg f w.freeSeq noEntry free := by
  obtain ⟨hmem, hnodup⟩ := List.nodup_cons.mp hfresh.nodup
  refine h.free_seg.congr fun e he => hf e ?_ fun hio => ?_
  · rintro rfl
    exact hmem (List.mem_append_left _ he)
  · exact (List.disjoint_of_nodup_append hnodup) he hio

/-- The branch of `__insert_req_sorted` for an entry that becomes the head. -/
theorem insert_head {a : Nat} {m : List Nat} (h : WorkChains w free (a :: m))
    (hfresh : Fresh w free (a :: m) entry) :
    WorkChains { (w.setPrev w.ioSeq entry).setNext entry w.ioSeq with ioSeq := entry } free
      (entry :: a :: m) := by
  have hdll := h.dll (List.cons_ne_nil a m)
  obtain rfl : w.ioSeq = a := hdll.forward.1
  have hnodup := hfresh.nodup
  have hea : w.ioSeq ≠ entry := by grind
  have hnot : ∀ y ∈ w.ioSeq :: m, y ≠ entry := by grind
  have hrest : ∀ y ∈ m, y ≠ w.ioSeq := by grind
  refine of_dll ?_ h.free_end ?_ ?_
  · apply h.free_seg_congr hfresh
    intro e he _
    exact congrFun (setNext_next _ _ _) e |>.trans (by rw [Function.update_of_ne he, setPrev_next])
  · change Dll ((w.setPrev w.ioSeq entry).setNext entry w.ioSeq).next
      ((w.setPrev w.ioSeq entry).setNext entry w.ioSeq).prev noEntry entry w.ioSeqEnd _
    rw [setNext_next, setNext_prev, setPrev_next, setPrev_prev]
    refine hdll.cons (fun y hy => Function.update_of_ne (hnot y hy) ..)
      (fun y hy => Function.update_of_ne (hrest y hy) ..) (Function.update_self ..)
      (Function.update_self ..) ?_
    rw [Function.update_of_ne hea.symm, hfresh.prev_eq]
  · rw [List.getLast?_cons_cons]
    exact h.getLast?_eq (List.cons_ne_nil _ _)

/-- The branch for an entry that becomes the tail. -/
theorem insert_tail {c : Nat} {b : List Nat} (h : WorkChains w free (b ++ [c]))
    (hfresh : Fresh w free (b ++ [c]) entry) :
    WorkChains ({ w.setPrev entry c with ioSeqEnd := entry }.setNext c entry) free
      (b ++ [c, entry]) := by
  have hdll := h.dll (List.append_ne_nil_of_right_ne_nil b (List.cons_ne_nil c []))
  have hlast : w.ioSeqEnd = c := h.io_end c List.getLast?_concat
  have hnodup := hfresh.nodup
  have hec : entry ≠ c := by grind
  have hnot : ∀ y ∈ b ++ [c], y ≠ entry := by grind
  have hrest : ∀ y ∈ b, y ≠ c := by grind
  refine of_dll ?_ h.free_end ?_ ?_
  · apply h.free_seg_congr hfresh
    intro e _ hio
    have hne : e ≠ c := by
      rintro rfl
      exact hio (List.mem_append_right _ (List.mem_cons_self ..))
    exact congrFun (setNext_next _ _ _) e |>.trans (Function.update_of_ne hne ..) |>.trans
      (congrFun (setPrev_next w entry c) e)
  · change Dll ((w.setPrev entry c).setNext c entry).next ((w.setPrev entry c).setNext c entry).prev
      noEntry w.ioSeq entry _
    rw [setNext_next, setNext_prev, setPrev_next, setPrev_prev]
    refine hdll.concat (fun y hy => Function.update_of_ne (hrest y hy) ..)
      (fun y hy => Function.update_of_ne (hnot y hy) ..) (Function.update_self ..) ?_
      (Function.update_self ..)
    rw [Function.update_of_ne hec, hfresh.next_eq]
  · change (b ++ ([c] ++ [entry])).getLast? = some entry
    rw [← List.append_assoc, List.getLast?_concat]

/-- The branch for an entry that goes in between. -/
theorem insert_middle {c d : Nat} {b m : List Nat} (h : WorkChains w free (b ++ c :: d :: m))
    (hfresh : Fresh w free (b ++ c :: d :: m) entry) :
    let v := (w.setPrev entry c).setNext entry (w.next c)
    WorkChains ((v.setPrev (v.next entry) entry).setNext c entry) free
      (b ++ c :: entry :: d :: m) := by
  have hdll := h.dll (List.append_ne_nil_of_right_ne_nil b (List.cons_ne_nil c _))
  obtain ⟨_, -, -, hd, -⟩ := seg_append.mp hdll.forward
  have hdp : w.prev d = c := by
    have hback := hdll.backward
    rw [List.reverse_append, List.reverse_cons, List.reverse_cons, List.append_assoc,
      List.append_assoc] at hback
    obtain ⟨_, -, -, hc, -⟩ := seg_append.mp hback
    exact hc
  have hnodup := hfresh.nodup
  have hec : entry ≠ c := by grind
  have hed : entry ≠ d := by grind
  have hnot : ∀ y ∈ b ++ c :: d :: m, y ≠ entry := by grind
  have hnc : ∀ y ∈ b ++ d :: m, y ≠ c := by grind
  have hnd : ∀ y ∈ b ++ c :: m, y ≠ d := by grind
  intro v
  have hvn : v.next = Function.update w.next entry d := by
    rw [setNext_next, setPrev_next, hd]
  have hvp : v.prev = Function.update w.prev entry c := by
    rw [setNext_prev, setPrev_prev]
  have hve : v.next entry = d := by rw [hvn, Function.update_self]
  rw [hve]
  have hnext : ((v.setPrev d entry).setNext c entry).next =
      Function.update (Function.update w.next entry d) c entry := by
    rw [setNext_next, setPrev_next, hvn]
  have hprev : ((v.setPrev d entry).setNext c entry).prev =
      Function.update (Function.update w.prev entry c) d entry := by
    rw [setNext_prev, setPrev_prev, hvp]
  refine of_dll ?_ h.free_end ?_ ?_
  · apply h.free_seg_congr hfresh
    intro e he hio
    have hne : e ≠ c := by
      rintro rfl
      exact hio (List.mem_append_right _ (List.mem_cons_self ..))
    rw [hnext, Function.update_of_ne hne, Function.update_of_ne he]
  · rw [hnext, hprev]
    refine hdll.insert (fun y hy => ?_) (fun y hy => ?_) (Function.update_self ..) ?_
      (Function.update_self ..) ?_
    · rw [Function.update_of_ne (hnc y hy), Function.update_of_ne (by grind)]
    · rw [Function.update_of_ne (hnd y hy), Function.update_of_ne (by grind)]
    · rw [Function.update_of_ne hec, Function.update_self, hd]
    · rw [Function.update_of_ne hed, Function.update_self, hdp]
  · have hlast := h.getLast?_eq (List.append_ne_nil_of_right_ne_nil b (List.cons_ne_nil c _))
    rw [List.getLast?_append_of_ne_nil _ (List.cons_ne_nil _ _), List.getLast?_cons_cons] at hlast
    rw [List.getLast?_append_of_ne_nil _ (List.cons_ne_nil _ _), List.getLast?_cons_cons,
      List.getLast?_cons_cons]
    exact hlast

end WorkChains

/-- A list is what a search from its end keeps and what it skips. -/
theorem exists_search_split {p : Nat → Bool} (l : List Nat) :
    ∃ before after, l = before ++ after ∧
      (l.reverse.dropWhile fun e => !p e).head? = before.getLast? ∧
      (∀ e, before.getLast? = some e → p e = true) ∧ ∀ e ∈ after, p e = false := by
  refine ⟨(l.reverse.dropWhile fun e => !p e).reverse, (l.reverse.takeWhile fun e => !p e).reverse,
    ?_, ?_, ?_, ?_⟩
  · rw [← List.reverse_append, List.takeWhile_append_dropWhile, List.reverse_reverse]
  · rw [List.getLast?_reverse]
  · intro e he
    have hnot := List.head?_dropWhile_not (fun e => !p e) l.reverse
    rw [List.getLast?_reverse] at he
    simpa [he] using hnot
  · intro e he
    simpa using List.mem_takeWhile_imp (List.mem_reverse.mp he)

/-- Insertion puts the entry behind the last entry that stops the search. -/
theorem WorkChains.insertReqSorted {w : NvmevIoWorker} {free io : List Nat} {entry t : Nat}
    (h : WorkChains w free io) (hlen : io.length ≤ nrMaxParallelIo) (hnil : noEntry ∉ io)
    (hfresh : Fresh w free io entry) :
    ∃ before after, io = before ++ after ∧
      WorkChains (w.insertReqSorted entry t) free (before ++ entry :: after) ∧
      (∀ e, before.getLast? = some e → w.stopsAt t e = true) ∧
      ∀ e ∈ after, w.stopsAt t e = false := by
  obtain ⟨before, after, rfl, hhead, hbefore, hafter⟩ := exists_search_split (p := w.stopsAt t) io
  refine ⟨before, after, rfl, ?_, hbefore, hafter⟩
  rcases eq_or_ne (before ++ after) [] with hempty | hne
  · -- An empty list: the entry is the whole list.
    obtain ⟨rfl, rfl⟩ := List.append_eq_nil_iff.mp hempty
    have hseq : w.ioSeq = noEntry := h.io_dll.forward
    rw [NvmevIoWorker.insertReqSorted, if_pos hseq]
    exact ⟨h.free_seg, h.free_end, .singleton hfresh.next_eq hfresh.prev_eq,
      fun e he => by simpa using he⟩
  have hdll := h.dll hne
  have hseq : w.ioSeq ≠ noEntry := fun hseq =>
    hne (by rw [hseq] at hdll; exact hdll.forward.eq_nil hnil)
  have hsearch : w.insertSearch t nrMaxParallelIo w.ioSeqEnd = before.getLast?.getD noEntry := by
    rw [NvmevIoWorker.insertSearch_eq hdll.backward (fun hmem => hnil (List.mem_reverse.mp hmem))
      (by rwa [List.length_reverse]), hhead]
  rw [NvmevIoWorker.insertReqSorted, if_neg hseq, hsearch]
  rcases before.eq_nil_or_concat' with rfl | ⟨b, c, rfl⟩
  · -- No entry stops the search: the entry becomes the head.
    obtain ⟨a, m, rfl⟩ := List.exists_cons_of_ne_nil hne
    exact h.insert_head hfresh
  · have hc : c ≠ noEntry := fun hc => hnil (by simp [hc])
    simp only [List.getLast?_concat, Option.getD_some, if_neg hc]
    cases after with
    | nil =>
      rw [List.append_nil] at h hfresh hdll
      have hcn : w.next c = noEntry := (seg_concat.mp hdll.forward).2
      rw [if_pos hcn, List.append_assoc]
      exact h.insert_tail hfresh
    | cons d m =>
      rw [List.append_assoc, List.singleton_append] at h hfresh hdll
      have hcn : w.next c = d := by
        obtain ⟨_, -, -, hd, -⟩ := seg_append.mp hdll.forward
        exact hd
      have hd : d ≠ noEntry := fun hd => hnil (by simp [hd])
      rw [if_neg (by rwa [hcn]), List.append_assoc]
      exact h.insert_middle hfresh

/-! ## Reclaiming -/

section reclaim

open NvmevIoWorker

variable {w : NvmevIoWorker} {free io : List Nat}

/-- The links that `__reclaim_completed_reqs` writes when `l` is the last entry that is done. -/
theorem NvmevIoWorker.reclaim_links {l : Nat}
    (hl : w.reclaimScan nrMaxParallelIo w.ioSeq noEntry = l) (hne : l ≠ noEntry) :
    w.reclaim.next = Function.update (Function.update w.next l noEntry) w.freeSeqEnd w.ioSeq ∧
    w.reclaim.prev = Function.update
      (if w.next l ≠ noEntry then Function.update w.prev (w.next l) noEntry else w.prev)
      w.ioSeq w.freeSeqEnd ∧
    w.reclaim.freeSeq = w.freeSeq ∧ w.reclaim.freeSeqEnd = l ∧ w.reclaim.ioSeq = w.next l ∧
    w.reclaim.ioSeqEnd = w.ioSeqEnd := by
  unfold NvmevIoWorker.reclaim
  simp only [hl, if_pos hne]
  split_ifs with hnext
  · refine ⟨?_, ?_, rfl, trivial, rfl, rfl⟩
    · change (setNext (setPrev (setNext (setPrev { w with ioSeq := w.next l } _ _) _ _) _ _) _ _).next = _
      simp only [setNext_next, setPrev_next]
      rfl
    · change (setNext (setPrev (setNext (setPrev { w with ioSeq := w.next l } _ _) _ _) _ _) _ _).prev = _
      simp only [setNext_prev, setPrev_prev]
      rfl
  · refine ⟨?_, ?_, rfl, trivial, rfl, rfl⟩
    · change (setNext (setPrev (setNext { w with ioSeq := w.next l } _ _) _ _) _ _).next = _
      simp only [setNext_next, setPrev_next]
      rfl
    · change (setNext (setPrev (setNext { w with ioSeq := w.next l } _ _) _ _) _ _).prev = _
      simp only [setNext_prev, setPrev_prev]
      rfl

/-- The entries in flight that are done, from the first one on, join the free list. -/
theorem WorkChains.reclaim (h : WorkChains w free io) (hp : Partition free io) :
    WorkChains w.reclaim (free ++ io.takeWhile w.isDone) (io.dropWhile w.isDone) := by
  have hscan : w.reclaimScan nrMaxParallelIo w.ioSeq noEntry =
      (io.takeWhile w.isDone).getLast?.getD noEntry :=
    reclaimScan_eq h.io_dll.forward hp.noEntry_notMem_io hp.length_io_le
  have hsplit := List.takeWhile_append_dropWhile (p := w.isDone) (l := io)
  generalize io.takeWhile w.isDone = pre at hscan hsplit ⊢
  generalize io.dropWhile w.isDone = rest at hsplit ⊢
  subst hsplit
  rcases pre.eq_nil_or_concat' with rfl | ⟨p, l, rfl⟩
  · -- Nothing is done.
    rw [List.append_nil]
    rw [NvmevIoWorker.reclaim, hscan]
    exact h
  rw [List.getLast?_concat, Option.getD_some] at hscan
  have hl : l ≠ noEntry := fun hl => hp.noEntry_notMem_io (by simp [hl])
  obtain ⟨hnext, hprev, hfree, hfreeEnd, hseq, hseqEnd⟩ := reclaim_links hscan hl
  obtain ⟨q, hq⟩ := List.getLast?_eq_some_iff.mp h.free_end
  have hdll := h.io_dll
  obtain ⟨r, hpl, hrest⟩ := seg_append.mp hdll.forward
  obtain ⟨hpre, hlr⟩ := seg_concat.mp hpl
  have hfirst : w.ioSeq ∈ p ++ [l] := hpl.mem (by simp)
  -- The links that are written belong to three different places.
  have hnodup := hp.nodup
  have hmem : w.freeSeqEnd ∈ free := hq ▸ List.mem_append_right _ (List.mem_cons_self ..)
  have hends : w.freeSeqEnd ∉ p ++ [l] ++ rest := List.disjoint_of_nodup_append hnodup hmem
  have hlq : l ∉ q ++ [w.freeSeqEnd] := by
    rw [← hq]
    exact fun hlq => List.disjoint_of_nodup_append hnodup hlq (by simp)
  have hsplit : (p ++ [l]).Disjoint rest :=
    List.disjoint_of_nodup_append (List.Nodup.of_append_right hnodup)
  have hlp : l ∉ p := by
    have hio := (List.Nodup.of_append_right hnodup).of_append_left
    exact fun hlp => List.disjoint_of_nodup_append hio hlp (List.mem_cons_self ..)
  have hqend : w.freeSeqEnd ∉ q := by
    have hfree := hq ▸ hnodup.of_append_left
    exact fun hqend => List.disjoint_of_nodup_append hfree hqend (List.mem_cons_self ..)
  constructor
  · -- The free list goes on with the reclaimed entries.
    rw [hfree, hq, seg_append]
    refine ⟨w.ioSeq, ?_, ?_⟩
    · refine (hq ▸ h.free_seg).retarget (fun y hy => ?_) ?_
      · rw [hnext, Function.update_of_ne (by rintro rfl; exact hqend hy),
          Function.update_of_ne (by rintro rfl; exact hlq (List.mem_append_left _ hy))]
      · rw [hnext, Function.update_self]
    · refine hpl.retarget (fun y hy => ?_) ?_
      · rw [hnext, Function.update_of_ne (by rintro rfl; exact hends (by simp [hy])),
          Function.update_of_ne (by rintro rfl; exact hlp hy)]
      · rw [hnext, Function.update_of_ne (by rintro rfl; exact hends (by simp)),
          Function.update_self]
  · rw [hfreeEnd, ← List.append_assoc, List.getLast?_concat]
  · rw [hseq, hlr]
    constructor
    · apply hrest.congr
      intro y hy
      rw [hnext, Function.update_of_ne (by rintro rfl; exact hends (by simp [hy])),
        Function.update_of_ne (by rintro rfl; exact hsplit (by simp) hy)]
    · cases rest with
      | nil => rfl
      | cons d rs =>
        have hd : r = d := hrest.1
        have hdn : d ≠ noEntry := fun hd => hp.noEntry_notMem_io (by simp [hd])
        have hback := hdll.backward
        rw [List.reverse_append] at hback
        obtain ⟨_, hback, -⟩ := seg_append.mp hback
        rw [List.getLast?_append_of_ne_nil _ (List.cons_ne_nil _ _)] at hback
        rw [List.reverse_cons] at hback ⊢
        have hset : w.reclaim.prev =
            Function.update (Function.update w.prev d noEntry) w.ioSeq w.freeSeqEnd := by
          rw [hprev, hlr, hd, if_pos hdn]
        have hnotFirst : ∀ y ∈ d :: rs, y ≠ w.ioSeq := by
          rintro y hy rfl
          exact hsplit hfirst hy
        refine hback.retarget (fun y hy => ?_) ?_
        · have hy : y ∈ rs := List.mem_reverse.mp hy
          have hyd : y ≠ d := by grind
          rw [hset, Function.update_of_ne (hnotFirst y (List.mem_cons_of_mem _ hy)),
            Function.update_of_ne hyd]
        · rw [hset, Function.update_of_ne (hnotFirst d (List.mem_cons_self ..)),
            Function.update_self]
  · intro e he
    rw [hseqEnd]
    apply h.io_end e
    cases rest with
    | nil => cases he
    | cons d rs => rwa [List.getLast?_append_of_ne_nil _ (List.cons_ne_nil _ _)]

end reclaim

end NvmeVirt
