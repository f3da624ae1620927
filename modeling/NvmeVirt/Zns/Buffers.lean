import NvmeVirt.Zns.Init
import NvmeVirt.Zns.Accounting

/-!
# The sizes of the buffers

Allocating, releasing and refilling change what remains of a buffer, never its size, and a buffer
that is too small for a request is not changed at all.
-/

namespace NvmeVirt

open Checked

namespace ZnsFtl

variable {z z' z'' : ZnsFtl} {zid : Nat} {req : ZnsRequest} {b : BufferRef}

/-- Every buffer has the same size. -/
def SameSizes (z z' : ZnsFtl) : Prop := ∀ b, (z'.buffers b).size = (z.buffers b).size

theorem SameSizes.refl (z : ZnsFtl) : z.SameSizes z := fun _ => rfl

theorem SameSizes.of_eq (h : z'.buffers = z.buffers) : z.SameSizes z' := fun b => by rw [h]

/-- What a command moves through the buffers: the buffers, the pending internal operations, and
the one-shot pages that were programmed. -/
def flow (z : ZnsFtl) : (BufferRef → Buffer) × List ZnsInternalOp × (Nat → List Nat) :=
  (z.buffers, z.pending, z.programs)

theorem buffers_of_flow (h : z'.flow = z.flow) : z'.buffers = z.buffers := congrArg Prod.fst h

theorem pending_of_flow (h : z'.flow = z.flow) : z'.pending = z.pending :=
  congrArg (fun f => f.2.1) h

theorem programs_of_flow (h : z'.flow = z.flow) : z'.programs = z.programs :=
  congrArg (fun f => f.2.2) h

theorem SameSizes.of_flow (h : z'.flow = z.flow) : z.SameSizes z' := .of_eq (buffers_of_flow h)

theorem SameSizes.trans (h : z.SameSizes z') (h' : z'.SameSizes z'') : z.SameSizes z'' :=
  fun b => (h' b).trans (h b)

theorem sameSizes_setBuffer {buf : Buffer} (h : buf.size = (z.buffers b).size) :
    z.SameSizes (z.setBuffer b buf) := by
  intro b'
  change (Function.update z.buffers b buf b').size = _
  rw [Function.update_apply]
  split
  · next hb => rw [hb, h]
  · rfl

/-! ## Allocation -/

/-- An allocation takes what it returns, or nothing. -/
theorem allocate_cases {size n : Nat} (h : z.allocate b size = .ok (n, z')) :
    size ≤ (z.buffers b).size ∧
      ((n = 0 ∧ (z.buffers b).remaining < size ∧ z' = z) ∨
        (n = u32 size ∧ size ≤ (z.buffers b).remaining ∧ z' = z.setBuffer b
          { z.buffers b with remaining := (z.buffers b).remaining - size })) := by
  obtain ⟨-, buf, hbuf, rfl⟩ := allocate_eq_ok h
  obtain ⟨hsize, taken, hr, ⟨rfl, hshort⟩ | ⟨rfl, hroom⟩⟩ := (bufferAllocate_outcome _ _).of_ok hbuf
  · cases hr
    refine ⟨hsize, Or.inl ⟨rfl, hshort, ?_⟩⟩
    simp [setBuffer]
  · cases hr
    exact ⟨hsize, Or.inr ⟨rfl, hroom, rfl⟩⟩

theorem allocate_sameSizes {size n : Nat} (h : z.allocate b size = .ok (n, z')) :
    z.SameSizes z' := by
  obtain ⟨-, ⟨-, -, rfl⟩ | ⟨-, -, rfl⟩⟩ := allocate_cases h
  · exact .refl z'
  · exact sameSizes_setBuffer rfl

/-- An allocation that returns less than it was asked for has done nothing. -/
theorem allocate_short {size n : Nat} (h : z.allocate b size = .ok (n, z')) (hsize : size < 2 ^ 32)
    (hn : n < size) : z' = z := by
  obtain ⟨-, ⟨-, -, hz⟩ | ⟨rfl, -, -⟩⟩ := allocate_cases h
  · exact hz
  · rw [u32, Nat.mod_eq_of_lt hsize] at hn
    exact absurd hn (Nat.lt_irrefl size)

/-! ## Operations that leave the buffers and what is pending alone -/

@[simp] theorem setZone_flow {d : ZoneDescriptor} : (z.setZone zid d).flow = z.flow := rfl

@[simp] theorem changeZoneState_flow {s : ZoneState} :
    (z.changeZoneState zid s).flow = z.flow := rfl

@[simp] theorem release_flow {t : ZoneResource} :
    (z.releaseZoneResource t).flow = z.flow := rfl

@[simp] theorem acquire_flow {t : ZoneResource} :
    (z.acquireZoneResource t).2.flow = z.flow := by
  unfold acquireZoneResource
  split <;> rfl

@[simp] theorem releaseActive_flow {v : Bool} : (z.releaseActive v).flow = z.flow := by
  cases v <;> rfl

@[simp] theorem increaseWritePtr_flow {n : Nat} :
    (z.increaseWritePtr zid n).flow = z.flow := by
  unfold increaseWritePtr
  dsimp only
  split <;> rfl

theorem writeLoop_buffers (sqId : Nat) (elpn stime fuel : Nat) (z : ZnsFtl) (lpn latest : Nat) :
    (writeLoop sqId zid b elpn stime fuel z lpn latest).2.buffers = z.buffers := by
  induction fuel generalizing z lpn latest with
  | zero => rfl
  | succ fuel ih =>
    unfold writeLoop
    split
    · dsimp only
      split
      · exact ih ..
      · exact ih ..
    · rfl

theorem zrwaLoop_buffers (sqId stime fuel : Nat) (z : ZnsFtl) (lpn remaining latest : Nat) :
    (zrwaLoop sqId zid stime fuel z lpn remaining latest).2.buffers = z.buffers := by
  induction fuel generalizing z lpn remaining latest with
  | zero => rfl
  | succ fuel ih =>
    unfold zrwaLoop
    split
    · dsimp only
      split
      · exact ih ..
      · exact ih ..
    · rfl

@[simp] theorem writeZone_buffers {c : RwCommand} :
    (z.writeZone req c zid).2.buffers = z.buffers :=
  (writeLoop_buffers ..).trans (buffers_of_flow increaseWritePtr_flow)

@[simp] theorem programZrwa_buffers {c : RwCommand} {prevWp n : Nat} :
    (z.programZrwa req c zid prevWp n).2.buffers = z.buffers :=
  zrwaLoop_buffers ..

theorem acquire_eq_flow {t : ZoneResource} {ok : Bool}
    (h : z.acquireZoneResource t = (ok, z')) : z'.flow = z.flow := by
  have hflow := @acquire_flow z t
  rwa [h] at hflow

theorem openForWrite_flow {slba : Nat} : (z.openForWrite zid slba).2.flow = z.flow := by
  unfold openForWrite
  dsimp only
  split
  · split
    · rfl
    · split
      · rfl
      · split
        · rfl
        · split
          · next h => exact (acquire_eq_flow h).trans acquire_flow
          · next h =>
            exact changeZoneState_flow.trans ((acquire_eq_flow h).trans acquire_flow)
  · split
    · next h => exact acquire_eq_flow h
    · next h => exact changeZoneState_flow.trans (acquire_eq_flow h)
  all_goals rfl

theorem openClosedZone_flow : (z.openClosedZone zid).2.flow = z.flow := by
  unfold openClosedZone
  split
  · next h => exact acquire_eq_flow h
  · next h => exact changeZoneState_flow.trans (acquire_eq_flow h)

theorem openZone_flow {v : Bool} : (z.openZone zid v).2.flow = z.flow := by
  unfold openZone
  dsimp only
  split
  · split
    · rfl
    · split
      · rfl
      · split
        · split
          · rfl
          · rw [openClosedZone_flow, acquire_flow, setZone_flow, acquire_flow]
        · rw [openClosedZone_flow, acquire_flow]
  · exact openClosedZone_flow
  all_goals rfl

theorem closeZone_flow : (z.closeZone zid).2.flow = z.flow := by
  unfold closeZone
  split <;> rfl

theorem finishZone_flow : (z.finishZone zid).2.flow = z.flow := by
  unfold finishZone
  dsimp only
  split <;> simp

theorem offlineZone_flow : (z.offlineZone zid).2.flow = z.flow := by
  unfold offlineZone
  split <;> rfl

theorem flushTo_flow {wp : Nat} : (z.flushTo zid wp).2.flow = z.flow := by
  unfold flushTo
  dsimp only
  split
  iterate 3
    · split
      · split <;> rfl
      · rfl
  rfl

/-! ## Sizes over events -/

theorem clearZone_sizes : z.SameSizes (z.clearZone zid) := by
  unfold clearZone
  dsimp only
  split
  · exact sameSizes_setBuffer rfl
  · exact .refl z

theorem resetZone_sizes : z.SameSizes (z.resetZone zid).2 := by
  have hclear : ∀ z₁ : ZnsFtl, z₁.flow = z.flow →
      z.SameSizes ((z₁.changeZoneState zid .empty).clearZone zid) :=
    fun z₁ h =>
      (@SameSizes.of_flow z (z₁.changeZoneState zid .empty) h).trans clearZone_sizes
  unfold resetZone
  dsimp only
  split
  · exact hclear _ (by simp)
  · exact hclear _ (by simp)
  · exact hclear _ (by simp)
  · exact hclear _ rfl
  · exact hclear _ rfl
  · exact .refl z

/-- What an action on an existing zone returns. -/
theorem zmgmtSend_zone {slba : Nat} {action : ZoneSendAction} {option : Bool}
    {status : Option ZnsStatus} {r : ZnsStatus × ZnsFtl}
    (hr : z.zmgmtSend slba action option = .ok (status, z'))
    (hrun : z.zmgmtSend slba action option = z.getZone (z.lbaToZone slba) >>= fun _ =>
      return (some r.1, r.2)) : z.lbaToZone slba < z.zp.nrZones ∧ z' = r.2 := by
  rw [hrun] at hr
  obtain ⟨_, hz, hr⟩ := bind_eq_ok.mp hr
  cases hr
  exact ⟨(getZone_eq_ok.mp hz).1, rfl⟩

theorem zmgmtSend_flow {slba : Nat} {action : ZoneSendAction} {option : Bool}
    {status : Option ZnsStatus} (hne : action ≠ .reset)
    (hr : z.zmgmtSend slba action option = .ok (status, z')) : z'.flow = z.flow := by
  cases action with
  | other =>
    cases hr
    rfl
  | flushExplZrwa =>
    obtain ⟨r, hflush, hr⟩ := bind_eq_ok.mp hr
    cases hr
    simp only [flushExplicitZrwa, bind_eq_ok] at hflush
    obtain ⟨_, -, hflush⟩ := hflush
    split at hflush
    · cases hflush
      rfl
    · split at hflush
      · cases hflush
        rfl
      · obtain ⟨_, -, hflush⟩ := bind_eq_ok.mp hflush
        split at hflush
        · cases hflush
          rfl
        · obtain rfl := Except.ok.inj hflush
          exact flushTo_flow
  | close => rw [(zmgmtSend_zone (r := z.closeZone _) hr rfl).2, closeZone_flow]
  | finish => rw [(zmgmtSend_zone (r := z.finishZone _) hr rfl).2, finishZone_flow]
  | «open» => rw [(zmgmtSend_zone (r := z.openZone _ option) hr rfl).2, openZone_flow]
  | reset => exact absurd rfl hne
  | offline => rw [(zmgmtSend_zone (r := z.offlineZone _) hr rfl).2, offlineZone_flow]

theorem zmgmtSend_sizes {slba : Nat} {action : ZoneSendAction} {option : Bool}
    {status : Option ZnsStatus} (hr : z.zmgmtSend slba action option = .ok (status, z')) :
    z.SameSizes z' := by
  by_cases hreset : action = .reset
  · subst hreset
    rw [(zmgmtSend_zone (r := z.resetZone _) hr rfl).2]
    exact resetZone_sizes
  · exact .of_flow (zmgmtSend_flow hreset hr)

theorem znsZmgmtSend_sizes {c : ZoneMgmtSend} {r : ZnsResult}
    (hr : z.znsZmgmtSend req c = .ok (r, z')) : z.SameSizes z' := by
  unfold znsZmgmtSend at hr
  split at hr
  · obtain ⟨z₁, hfold, hr⟩ := bind_eq_ok.mp hr
    cases hr
    refine (outcome_foldlM_const (E := fun _ => True) z.SameSizes (fun zid _ z₁ h => ?_) z
      (.refl z)).of_ok hfold
    apply Outcome.of_forall_ok
    intro z₂ hr
    obtain ⟨⟨status, z₃⟩, hr, hret⟩ := bind_eq_ok.mp hr
    cases hret
    exact h.trans (zmgmtSend_sizes hr)
  · obtain ⟨⟨status, z₁⟩, hone, hr⟩ := bind_eq_ok.mp hr
    cases hr
    exact zmgmtSend_sizes hone

theorem znsWriteSeq_sizes {op : ZnsWriteOp} {c c' : RwCommand} {result : Option ZnsResult}
    (hr : z.znsWriteSeq req op c = .ok (result, c', z')) : z.SameSizes z' := by
  simp only [znsWriteSeq, bind_eq_ok] at hr
  obtain ⟨_, -, ⟨a, z₀⟩, halloc, hr⟩ := hr
  have hs := allocate_sameSizes halloc
  generalize (if op = .append then _ else c) = c₁ at hr
  dsimp only at hr
  split at hr
  · obtain rfl : z₀ = z' := congrArg (fun r => r.2.2) (Except.ok.inj hr)
    exact hs
  · split at hr
    · split at hr
      · next z₁ hopen =>
        obtain rfl : (z₁.writeZone req c₁ _).2 = z' :=
          congrArg (fun r => r.2.2) (Except.ok.inj hr)
        have hflow := @openForWrite_flow z₀ (z.lbaToZone c.slba) c₁.slba
        rw [hopen] at hflow
        exact hs.trans (.of_eq (writeZone_buffers.trans (buffers_of_flow hflow)))
      · next s z₁ _ hopen =>
        obtain rfl : z₁ = z' := congrArg (fun r => r.2.2) (Except.ok.inj hr)
        have hflow := @openForWrite_flow z₀ (z.lbaToZone c.slba) c₁.slba
        rw [hopen] at hflow
        exact hs.trans (.of_flow hflow)
    · obtain rfl : z₀ = z' := congrArg (fun r => r.2.2) (Except.ok.inj hr)
      exact hs

theorem openForZrwa_sizes {s : ZnsStatus} (hr : z.openForZrwa zid = .ok (s, z')) :
    z.SameSizes z' := by
  unfold openForZrwa at hr
  split at hr
  iterate 2
    · split at hr
      · next h =>
        cases hr
        exact .of_flow (acquire_eq_flow h)
      · next h =>
        obtain ⟨⟨a, z₁⟩, halloc, hr⟩ := bind_eq_ok.mp hr
        obtain ⟨_, -, hr⟩ := bind_eq_ok.mp hr
        cases hr
        have hs := (SameSizes.of_flow (acquire_eq_flow h)).trans (allocate_sameSizes halloc)
        exact hs.trans (.of_flow changeZoneState_flow)
  all_goals
    cases hr
    exact .refl z

theorem znsWriteZrwa_sizes {c : RwCommand} {result : Option ZnsResult}
    (hr : z.znsWriteZrwa req c = .ok (result, z')) : z.SameSizes z' := by
  simp only [znsWriteZrwa, bind_eq_ok] at hr
  obtain ⟨d, -, hr⟩ := hr
  split at hr
  · obtain ⟨⟨s, z₁⟩, hopen, hr⟩ := bind_eq_ok.mp hr
    have hs := openForZrwa_sizes hopen
    cases s with
    | success =>
      obtain ⟨n, -, hr⟩ := bind_eq_ok.mp hr
      split at hr
      · obtain ⟨⟨a, z₂⟩, halloc, hr⟩ := bind_eq_ok.mp hr
        have hs := hs.trans (allocate_sameSizes halloc)
        dsimp only at hr
        split at hr
        · obtain rfl : z₂ = z' := congrArg Prod.snd (Except.ok.inj hr)
          exact hs
        · obtain rfl := congrArg Prod.snd (Except.ok.inj hr)
          exact hs.trans (.of_eq (programZrwa_buffers.trans (buffers_of_flow increaseWritePtr_flow)))
      · obtain rfl := congrArg Prod.snd (Except.ok.inj hr)
        exact hs.trans (.of_eq programZrwa_buffers)
    | _ =>
      obtain rfl : z₁ = z' := congrArg Prod.snd (Except.ok.inj hr)
      exact hs
  · obtain rfl : z = z' := congrArg Prod.snd (Except.ok.inj hr)
    exact .refl z

theorem Reads.flow (h : z.Reads z') : z'.flow = z.flow := by
  obtain ⟨ssd, report, rfl, -⟩ := h
  rfl

theorem completeInternal_sizes (i : Nat) : z.SameSizes (z.completeInternal i) := by
  unfold completeInternal
  split
  · exact .refl z
  · exact sameSizes_setBuffer rfl

theorem step_sizes {e : ZnsEvent} (hr : z.step e = .ok z') : z.SameSizes z' := by
  cases e with
  | release i =>
    cases hr
    exact completeInternal_sizes i
  | command req cmd =>
    obtain ⟨⟨result, cmd', z₁⟩, hrun, hr⟩ := bind_eq_ok.mp hr
    cases hr
    cases handled hrun with
    | write hwrite =>
      simp only [znsWrite, bind_eq_ok] at hwrite
      obtain ⟨_, -, hwrite⟩ := hwrite
      split at hwrite
      · obtain ⟨⟨r, z₁⟩, hzrwa, hwrite⟩ := bind_eq_ok.mp hwrite
        cases hwrite
        exact znsWriteZrwa_sizes hzrwa
      · exact znsWriteSeq_sizes hwrite
    | reads _ _ hz => exact .of_flow hz.flow
    | mgmtSend hsend => exact znsZmgmtSend_sizes hsend

theorem run_sizes {events : List ZnsEvent} (hr : events.foldlM ZnsFtl.step z = .ok z') :
    z.SameSizes z' :=
  (outcome_foldlM_const (E := fun _ => True) z.SameSizes
    (fun _ _ _ h => Outcome.of_forall_ok fun _ hr => h.trans (step_sizes hr)) z (.refl z)).of_ok hr

end ZnsFtl

end NvmeVirt
