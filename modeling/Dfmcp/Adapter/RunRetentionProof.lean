import Dfmcp.Adapter.RunJournalProof

/-!
# A run journal always has room to stop

Whatever was appended before, the records that end a run safely fit the bounds on frames and bytes: the
cancellation of a run that was not dispatched; for one that was, the request to cancel it and then its
terminal record.

* `sound_run` — the invariant of a journal holds after every run of operations;
* `retention_leaves_room` — so does the room that is needed to stop.
-/

namespace Dfmcp

open Machine Method Wire Runs

namespace BoundedRun

namespace RunJournal

section Retention

variable {endpoints : Endpoints} {o : Outside} {binding : RunBinding} {s t : RunSystem}
  {labels : List (Op × Outside)}

/-- An operation in which the source reports a run beyond its preparation only after its commit was
called. -/
def HonestStep (endpoints : Endpoints) (s : RunSystem) (label : Op × Outside) (t : RunSystem) : Prop :=
  Step endpoints s label t ∧ Truthful label.2 (s.commits ++ label.1.adds)

/-- **The invariant holds in every state of a run**, and speaks of single dispatch if the source is
honest. -/
theorem sound_run {honest : Prop} {past : BTreeMap String DurableRun}
    (hstart : Sound endpoints honest past s.commits s)
    (hrun : Run (fun a label b => Step endpoints a label b ∧
      (honest → Truthful label.2 (a.commits ++ label.1.adds))) s labels t) :
    Sound endpoints honest past t.commits t := by
  refine hrun.preserves (P := fun a => Sound endpoints honest past a.commits a) ?_ hstart
  rintro a ⟨op, o⟩ b hsound ⟨rfl, htruthful⟩
  rcases hsound.after op htruthful with hsame | ⟨key, digest, -, -, hmore⟩
  · rw [hsame.commits]
    exact hsame
  · rw [hmore.commits]
    exact hmore

/-- **A run journal always has room to stop.** -/
theorem retention_leaves_room (hvalid : binding.Valid endpoints)
    (hrun : Run (HonestStep endpoints) (initial o binding) labels s) {key : String} {run : DurableRun}
    (hget : s.journal.records.get? key = some run) (hpending : run.terminal = false) :
    (run.state ∈ [RunState.intent, .prepared] →
      s.journal.HasRoom ⟨run.plan, .cancelledBeforeDispatch, none⟩) ∧
    (run.state ∉ [RunState.intent, .prepared, .cancelRequested] →
      s.journal.HasRoom { run with state := .cancelRequested } ∧
        ∀ native, (s.journal.extended { run with state := .cancelRequested }).HasRoom
          ⟨run.plan, .terminal, some native⟩) ∧
    (run.state = .cancelRequested →
      ∀ native, s.journal.HasRoom ⟨run.plan, .terminal, some native⟩) := by
  have hsound : Sound endpoints True .nil s.commits s :=
    sound_run (sound_initial hvalid o) (hrun.mono fun a i b h => ⟨h.1, fun _ => h.2⟩)
  obtain ⟨hkeyed, hfits⟩ := And.intro hsound.kept.keyed hsound.kept.fits
  have hkey : run.plan.key = key := hkeyed key run hget
  refine ⟨fun _ => hfits.hasRoom_over hkeyed hget hpending hkey rfl, ?_, ?_⟩
  · intro hstate
    simp only [List.mem_cons, List.not_mem_nil, or_false, not_or] at hstate
    have hlive : run.Live :=
      ⟨dispatched_of_pending hpending (by simp [hstate.1, hstate.2.1]), hpending⟩
    have hroom : s.journal.HasRoom { run with state := .cancelRequested } :=
      hfits.hasRoom_cancel hkeyed (hsound.kept.alone trivial) hget hlive hstate.2.2 hkey rfl
    refine ⟨hroom, fun native => ?_⟩
    have hrequested : (s.journal.extended { run with state := .cancelRequested }).records.get? key =
        some { run with state := .cancelRequested } := by
      rw [get?_extended, if_pos hkey.symm]
    exact (hkeyed.fits_extended hroom).hasRoom_over (hkeyed.extended _) hrequested rfl hkey rfl
  · intro _ native
    exact hfits.hasRoom_over hkeyed hget hpending hkey rfl

end Retention

namespace Vigil

def endpoints : Endpoints where
  parses text := text = "127.0.0.1:8321"
  canonical text := text = "127.0.0.1:8321"
  loopback text := text = "127.0.0.1:8321"
  address _ h := ⟨h, h⟩
  bounded text h := by
    rw [decide_eq_true_eq] at h
    subst h
    decide

def binding : RunBinding := ⟨"127.0.0.1:8321", ⟨1, "53.05", "53.05-r1"⟩⟩

theorem binding_valid : binding.Valid endpoints := by
  unfold RunBinding.Valid
  rfl

def seen : ObservationFields := ⟨1, 7, some 1200, true, true⟩

def observation : RunObservation where
  toObservationFields := seen
  bytes := utf8 "DFMRO013" ++ beBytes 8 1 ++ beBytes 8 7 ++ beBytes 8 1200 ++ [1, 1, 1]
  decoded := by decide

def plan : RunPlan where
  key := "patrol"
  spec := ⟨100, 1000, by decide⟩
  before := observation
  keyed := by decide
  eligible := by decide

/-- Everything outside is as it should be, until the intent was recorded. -/
def outside : Outside where
  session := 1
  request := 1
  anchor := ⟨1, ⟨1, 7⟩, 1200, observation.witness⟩
  check n := if n = 18 then .error uncertain else .ok ()
  custody _ := .ok ()
  published _ := .synced
  observed := .ok observation
  reply := .error uncertain
  queried := .error uncertain

/-- The journal after the intent to run was recorded. -/
def intended : RunSystem := after outside endpoints (initial outside binding) (.prepare plan)

theorem intended_run : Run (HonestStep endpoints) (initial outside binding)
    [(.prepare plan, outside)] intended := by
  refine .cons ⟨rfl, ?_⟩ (.nil _)
  rintro native (hreply | hqueried)
  · cases hreply
  · cases hqueried

theorem intended_record :
    intended.journal.records.get? "patrol" = some ⟨plan, .intent, none⟩ := by decide +kernel

end Vigil

theorem intended_leaves_room :
    Vigil.intended.journal.HasRoom ⟨Vigil.plan, .cancelledBeforeDispatch, none⟩ :=
  (retention_leaves_room Vigil.binding_valid Vigil.intended_run Vigil.intended_record rfl).1
    (by decide)

end RunJournal

end BoundedRun

end Dfmcp
