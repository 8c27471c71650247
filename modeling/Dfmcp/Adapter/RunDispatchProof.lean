import Dfmcp.Adapter.RunRetentionProof

/-!
# Bounded runs never unpause twice

Over every run of operations, whatever the source replies and however the storage fails: the native
commit of a key is called at most once, of a prepared run only and while no run is unresolved; a
dispatched run stays dispatched, a terminal record stays as it is, and native evidence only advances.
What a journal wrote opens as its records; only the frame of a lost write may be there in addition, and
then the journal is fenced.

* `Becomes.dispatched`, `Becomes.terminal`, `Becomes.native` — records over a run;
* `never_unpauses_twice` — all of it.
-/

namespace Dfmcp

open Machine Method Wire Runs

namespace BoundedRun

open DurableRun

/-! ## Records over a run -/

theorem advances_refl (a : RunRecord) : advances a a = true := by
  unfold advances
  cases a.phase <;> simp

theorem advances_trans {a b c : RunRecord} (hab : advances a b = true) (hbc : advances b c = true) :
    advances a c = true := by
  unfold advances at *
  cases ha : a.phase with
  | prepared => simp
  | running =>
      rw [ha] at hab
      cases hb : b.phase <;> simp [hb] at hab hbc ⊢
      · exact hbc
      · tauto
      · rw [← hbc, hb]
        simp
      · rw [← hbc, hb]
        simp
  | stopping =>
      rw [ha] at hab
      cases hb : b.phase <;> simp [hb] at hab hbc ⊢
      · exact hbc
      · rw [← hbc, hb]
        simp
      · rw [← hbc, hb]
        simp
  | stopped =>
      rw [ha] at hab
      simp only [decide_eq_true_eq] at hab
      subst hab
      rw [ha] at hbc
      exact hbc
  | refused =>
      rw [ha] at hab
      simp only [decide_eq_true_eq] at hab
      subst hab
      rw [ha] at hbc
      exact hbc
  | sourceLost =>
      rw [ha] at hab
      simp only [decide_eq_true_eq] at hab
      subst hab
      rw [ha] at hbc
      exact hbc

namespace DurableRun

variable {old next : DurableRun}

/-- **A dispatched run stays dispatched.** -/
theorem Becomes.dispatched (h : old.Becomes next) (hold : old.Dispatched) : next.Dispatched := by
  induction h with
  | refl => exact hold
  | tail _ hstep ih => exact dispatched_of_transition hstep.moves ih

/-- **A terminal record stays as it is.** -/
theorem Becomes.terminal (h : old.Becomes next) (hold : old.terminal = true) : next = old := by
  induction h with
  | refl => rfl
  | tail _ hstep ih =>
      have hopen := (transition_some_iff.1 hstep.moves).2.2.1
      rw [ih, hold] at hopen
      cases hopen

/-- **Native evidence only advances**; a cancellation before dispatch records none. -/
theorem Becomes.native (h : old.Becomes next) {before : RunRecord} (hold : old.native = some before) :
    (∃ after, next.native = some after ∧ advances before after = true) ∨
      next.state = .cancelledBeforeDispatch := by
  induction h with
  | refl => exact .inl ⟨before, hold, advances_refl before⟩
  | @tail mid last _ hstep ih =>
      obtain ⟨-, -, hopen, -, hadvance⟩ := transition_some_iff.1 hstep.moves
      rcases ih with ⟨after, hmid, hafter⟩ | hcancelled
      · cases hlast : last.native with
        | none =>
            rcases hstep.kept hlast with hnone | hcancelled
            · rw [hnone] at hmid
              cases hmid
            · exact .inr hcancelled
        | some final =>
            rw [hmid, hlast] at hadvance
            exact .inl ⟨final, rfl, advances_trans hafter hadvance⟩
      · unfold DurableRun.terminal at hopen
        simp [hcancelled] at hopen

end DurableRun

namespace RunJournal

section Dispatch

variable {endpoints : Endpoints} {honest : Prop} {past : BTreeMap String DurableRun}
  {calls : List String} {o : Outside} {binding : RunBinding} {s t : RunSystem}
  {before later : List (Op × Outside)} {journal : RunJournal}

/-- The history starts again from here. -/
theorem Sound.rebase (h : Sound endpoints honest past calls s) :
    Sound endpoints honest s.journal.records calls s where
  commits := h.commits
  kept := { h.kept with since := fun _ run hrun => ⟨run, hrun, .refl⟩ }
  stored := by
    rcases h.stored with hdisk | ⟨next, kept, htorn⟩
    · exact .inl hdisk
    · refine .inr ⟨next, kept, htorn.fenced, htorn.accepts, htorn.follows, ?_, htorn.disk⟩
      refine { htorn.after with since := fun key run hrun => ?_ }
      by_cases hkey : key = next.plan.key
      · refine ⟨next, by rw [get?_extended, if_pos hkey], .single (htorn.follows run ?_)⟩
        rw [← hkey, hrun]
      · exact ⟨run, by rw [get?_extended, if_neg hkey, hrun], .refl⟩

/-- A cancellation that is recorded is of a run that is not over. -/
theorem cancelling_le_pending (journal : RunJournal) : journal.cancelling ≤ journal.pending := by
  unfold cancelling pending
  by_cases hany : (journal.records.values.any fun run => run.state = .cancelRequested) = true
  · rw [if_pos hany]
    obtain ⟨run, hrun, hstate⟩ := List.any_eq_true.1 hany
    rw [decide_eq_true_eq] at hstate
    refine List.length_pos_of_mem (List.mem_filter.2 ⟨hrun, ?_⟩)
    simp [DurableRun.terminal, hstate]
  · rw [if_neg hany]
    exact Nat.zero_le _

/-- A journal that fits its bounds can be opened. -/
theorem Fits.length_le (h : journal.Fits) : journal.bytes.length ≤ maxJournalBytes := by
  have hbytes := h.bytes
  have hle : journal.cancelling ≤ 2 * journal.pending :=
    journal.cancelling_le_pending.trans (by omega)
  have hscaled := Nat.mul_le_mul_right (maxBody + frameOverhead) hle
  omega

/-- What opening the storage of a run may give. -/
structure Reopens (endpoints : Endpoints) (t : RunSystem) : Prop where
  acknowledged : ∀ o mode, o.Willing →
    openStored o endpoints mode none t.journal.bytes = .ok (t.journal.asOpened o mode)
  unfenced : t.journal.fenced = false → t.disk = t.journal.bytes
  fenced : ∀ o mode expected opened, openStored o endpoints mode expected t.disk = .ok opened →
    opened.records = t.journal.records ∨
      ∃ next, Accepts t.journal next ∧
        opened.records = t.journal.records.insert next.plan.key next

theorem Sound.reopens (h : Sound endpoints honest past calls t) : Reopens endpoints t where
  acknowledged := fun o mode ho =>
    h.kept.written.openStored_self ho h.kept.fits.length_le rfl
  unfenced := by
    intro hfenced
    rcases h.stored with hdisk | ⟨next, kept, htorn⟩
    · exact hdisk
    · rw [htorn.fenced] at hfenced
      cases hfenced
  fenced := by
    intro o mode expected opened hopen
    rcases h.stored with hdisk | ⟨next, kept, htorn⟩
    · rw [hdisk] at hopen
      rw [h.kept.written.openStored_same hopen]
      exact .inl rfl
    · rw [htorn.disk] at hopen
      rcases h.kept.written.openStored_cases htorn.accepts hopen with hsame | hmore
      · rw [hsame]
        exact .inl rfl
      · rw [hmore]
        exact .inr ⟨next, htorn.accepts, rfl⟩

theorem sound_steps (hstart : Sound endpoints False past s.commits s)
    (hrun : Run (Step endpoints) s later t) : Sound endpoints False past t.commits t :=
  sound_run hstart (hrun.mono fun _ _ _ h => ⟨h, fun hno => hno.elim⟩)

/-- What a record is to one that it has become. -/
structure Preserved (old new : DurableRun) : Prop where
  dispatched : old.state = .dispatchStarted → new.state ∉ [RunState.intent, .prepared]
  terminal : old.terminal = true → new = old
  native : ∀ before, old.native = some before →
    (∃ after, new.native = some after ∧ advances before after = true) ∨
      new.state = .cancelledBeforeDispatch

theorem Becomes.preserved {old new : DurableRun} (h : old.Becomes new) : Preserved old new where
  dispatched := by
    intro hstarted
    have hdispatched := h.dispatched (by unfold Dispatched; simp [hstarted])
    unfold Dispatched at hdispatched
    simp only [List.mem_cons, List.not_mem_nil, or_false, not_or] at hdispatched ⊢
    exact ⟨hdispatched.1, hdispatched.2.1⟩
  terminal := h.terminal
  native := fun _ => h.native

/-- **Bounded runs never unpause twice.** -/
theorem never_unpauses_twice (hvalid : binding.Valid endpoints)
    (hbefore : Run (Step endpoints) (initial o binding) before s)
    (hlater : Run (Step endpoints) s later t) :
    t.commits.Nodup ∧
    (∀ op o', (after o' endpoints t op).commits = t.commits ∨
      ∃ key digest, op = .commit key digest ∧ MayCall t key ∧
        (after o' endpoints t op).commits = t.commits ++ [key]) ∧
    (∀ key old, s.journal.records.get? key = some old →
      ∃ new, t.journal.records.get? key = some new ∧ Preserved old new) ∧
    Reopens endpoints t := by
  have hs : Sound endpoints False .nil s.commits s := sound_steps (sound_initial hvalid o) hbefore
  have ht : Sound endpoints False s.journal.records t.commits t := sound_steps hs.rebase hlater
  refine ⟨ht.kept.once, fun op o' => ?_, fun key old hold => ?_, ht.reopens⟩
  · rcases ht.after op (o := o') (fun hno => hno.elim) with hsame | ⟨key, digest, hop, hmay, hmore⟩
    · exact .inl hsame.commits
    · exact .inr ⟨key, digest, hop, hmay, hmore.commits⟩
  · obtain ⟨new, hnew, hbecomes⟩ := ht.kept.since key old hold
    exact ⟨new, hnew, Becomes.preserved hbecomes⟩

end Dispatch

theorem intended_never_unpauses_twice :
    Vigil.intended.commits.Nodup ∧ Reopens Vigil.endpoints Vigil.intended := by
  have hrun : Run (Step Vigil.endpoints) (initial Vigil.outside Vigil.binding)
      [(.prepare Vigil.plan, Vigil.outside)] Vigil.intended := .cons rfl (.nil _)
  have h := never_unpauses_twice Vigil.binding_valid hrun (.nil _)
  exact ⟨h.1, h.2.2.2⟩

namespace Vigil

/-- The storage has the whole frame of the intent, but does not say so. -/
def losing : Outside := { outside with published := fun _ => .lost 1000 }

def lost : RunSystem := after losing endpoints (initial outside binding) (.prepare plan)

end Vigil

/-- The storage of a lost write opens with a record that the journal in memory does not have. -/
theorem lost_write_opens_more :
    Run (Step Vigil.endpoints) (initial Vigil.outside Vigil.binding)
      [(.prepare Vigil.plan, Vigil.losing)] Vigil.lost ∧
    Vigil.lost.journal.records.get? "patrol" = none ∧
    ((openStored { Vigil.outside with check := fun _ => .ok () } Vigil.endpoints .control none
      Vigil.lost.disk).toOption.bind fun opened => opened.records.get? "patrol") =
        some ⟨Vigil.plan, .intent, none⟩ := by
  refine ⟨.cons rfl (.nil _), ?_, ?_⟩
  · decide +kernel
  · decide +kernel

end RunJournal

end BoundedRun

end Dfmcp
