import Dfmcp.Adapter.RunJournalCodecProof
import Dfmcp.Library.Leaves
import Dfmcp.Library.Runs

/-!
# What a run journal keeps

One invariant of a journal, its storage and the native commits that were called, kept by every
operation whatever is met outside. Each record has followed from the one before it; a key whose commit
was called has a dispatched record; what is still reserved of the retention bounds is two slots for each
run that is not over, or one less while a cancellation is recorded; and the storage holds the bytes of
the journal, or, of a journal that lost a write, these and a part of one more frame.

If in addition the source speaks of a run beyond its preparation only after its commit was called, at
most one run is dispatched at a time.

* `Kept.extended` — an accepted record keeps the invariant;
* `sound_after` — so does every operation;
-/

namespace OMap

variable {K : Type} {V : Type} [LinearOrder K]

/-- The entries under the other keys, and the new one. -/
theorem toList_insert_perm_filter (m : BTreeMap K V) (k : K) (w : V) :
    (m.insert k w).toList.Perm ((k, w) :: m.toList.filter fun e => e.1 ≠ k) := by
  have hfresh : (k, w) ∉ m.toList.filter fun e => e.1 ≠ k := by
    intro hmem
    have := (List.mem_filter.1 hmem).2
    simp at this
  refine (List.perm_ext_iff_of_nodup (toList_nodup _)
    (List.nodup_cons.2 ⟨hfresh, m.toList_nodup.filter _⟩)).2 fun e => ?_
  obtain ⟨q, v⟩ := e
  rw [mem_toList_iff, get?_insert, List.mem_cons, List.mem_filter, mem_toList_iff, Prod.mk.injEq]
  by_cases hq : q = k
  · rw [if_pos hq]
    simp [hq, eq_comm]
  · rw [if_neg hq]
    simp [hq]

end OMap

namespace Dfmcp

open Machine Method Wire

namespace BoundedRun

/-! ## Records that follow one another -/

namespace DurableRun

/-- The game may have been unpaused for this run. -/
def Dispatched (run : DurableRun) : Prop :=
  run.state ∉ [RunState.intent, .prepared, .cancelledBeforeDispatch]

/-- A dispatched run that is not over. -/
def Live (run : DurableRun) : Prop := run.Dispatched ∧ run.terminal = false

instance (run : DurableRun) : Decidable run.Dispatched := inferInstanceAs (Decidable (¬ _))

instance (run : DurableRun) : Decidable run.Live := inferInstanceAs (Decidable (_ ∧ _))

theorem Live.unresolved {run : DurableRun} (h : run.Live) : run.unresolved = true := by
  obtain ⟨hstate, hterminal⟩ := h
  unfold Dispatched at hstate
  unfold terminal at hterminal
  unfold DurableRun.unresolved
  cases hrun : run.state with
  | intent => simp [hrun] at hstate
  | prepared => simp [hrun] at hstate
  | cancelledBeforeDispatch => simp [hrun] at hstate
  | terminal => simp [hrun] at hterminal
  | dispatchStarted => simp
  | tracking => simp
  | cancelRequested => simp

/-- A record that another one may replace: the transition is legal, and native evidence is dropped
only by a cancellation before dispatch. -/
structure Follows (old next : DurableRun) : Prop where
  moves : transition (some old) next = .ok ()
  kept : next.native = none → old.native = none ∨ next.state = .cancelledBeforeDispatch

theorem transition_some_iff {old next : DurableRun} :
    transition (some old) next = .ok () ↔ next.validate = .ok () ∧ old.plan = next.plan ∧
      old.terminal = false ∧ allowed old.state next.state = true ∧
        nativeAdvances old.native next.native = true := by
  unfold transition
  simp only [check_ok_iff, demand_ok_iff, Bool.not_eq_true']

/-- **A run that was dispatched stays dispatched.** -/
theorem dispatched_of_transition {old next : DurableRun} (h : transition (some old) next = .ok ())
    (hold : old.Dispatched) : next.Dispatched := by
  have hallowed := (transition_some_iff.1 h).2.2.2.1
  unfold Dispatched at hold ⊢
  intro hnext
  simp only [List.mem_cons, List.not_mem_nil, or_false] at hnext hold
  rcases hnext with hnext | hnext | hnext
  · rw [hnext] at hallowed
    cases hallowed
  · rw [hnext] at hallowed
    simp only [allowed, List.mem_cons, List.not_mem_nil, or_false, decide_eq_true_eq] at hallowed
    tauto
  · rw [hnext] at hallowed
    simp only [allowed, List.mem_cons, List.not_mem_nil, or_false, decide_eq_true_eq] at hallowed
    tauto

/-- The records that a record may become. -/
def Becomes : DurableRun → DurableRun → Prop := Relation.ReflTransGen Follows

end DurableRun

open DurableRun

namespace RunJournal

variable {journal : RunJournal} {next run : DurableRun} {key : String}

/-! ## What is reserved -/

/-- The runs that are not over. -/
def pending (journal : RunJournal) : Nat :=
  (journal.records.values.filter fun run => !run.terminal).length

/-- One if a cancellation is recorded and not yet over. -/
def cancelling (journal : RunJournal) : Nat :=
  if journal.records.values.any fun run => run.state = .cancelRequested then 1 else 0

/-- Two slots for each run that is not over, or one less during a cancellation. -/
structure Fits (journal : RunJournal) : Prop where
  frames : journal.frames + 2 * journal.pending ≤ maxTransitions + journal.cancelling
  bytes : journal.bytes.length + 2 * journal.pending * (maxBody + frameOverhead) ≤
    maxJournalBytes + journal.cancelling * (maxBody + frameOverhead)

/-- A record stands under the key of its plan. -/
def Keyed (journal : RunJournal) : Prop :=
  ∀ key run, journal.records.get? key = some run → run.plan.key = key

/-- At most one run is dispatched and not over. -/
def Alone (journal : RunJournal) : Prop :=
  ∀ key key' run run', journal.records.get? key = some run →
    journal.records.get? key' = some run' → run.Live → run'.Live → key = key'

theorem get?_extended (q : String) : (journal.extended next).records.get? q =
    if q = next.plan.key then some next else journal.records.get? q := OMap.get?_insert _ _ _ _

theorem Keyed.extended (h : journal.Keyed) (next : DurableRun) : (journal.extended next).Keyed := by
  intro key run hrun
  rw [get?_extended] at hrun
  by_cases hkey : key = next.plan.key
  · rw [if_pos hkey] at hrun
    cases hrun
    exact hkey.symm
  · rw [if_neg hkey] at hrun
    exact h key run hrun

/-- The pending runs under the other keys, counted by key. -/
theorem Keyed.otherPending_eq (h : journal.Keyed) (key : String) :
    journal.otherPending key =
      (journal.records.toList.filter fun e => e.1 ≠ key).countP fun e => !e.2.terminal := by
  unfold otherPending OMap.values
  rw [← List.countP_eq_length_filter, List.countP_map, List.countP_filter]
  refine List.countP_congr fun e he => ?_
  have hkey := h e.1 e.2 ((OMap.mem_toList_iff _ _ _).1 he)
  simp only [Function.comp_apply, Bool.and_eq_true, decide_eq_true_eq, hkey]
  exact and_comm

/-- The pending runs after a record: the others, and perhaps this one. -/
theorem Keyed.pending_extended (h : journal.Keyed) (next : DurableRun) :
    (journal.extended next).pending =
      journal.otherPending next.plan.key + if next.terminal then 0 else 1 := by
  unfold pending OMap.values
  rw [← List.countP_eq_length_filter, List.countP_map, h.otherPending_eq]
  change List.countP _ (journal.records.insert next.plan.key next).toList = _
  rw [List.Perm.countP_eq _ (OMap.toList_insert_perm_filter journal.records next.plan.key next),
    List.countP_cons]
  cases hterminal : next.terminal with
  | true => simp [hterminal, Function.comp_def]
  | false => simp [hterminal, Function.comp_def]

/-- Of the pending runs, one is that of the key, and the others are the others. -/
theorem Keyed.pending_eq (h : journal.Keyed) (hrun : journal.records.get? key = some run)
    (hpending : run.terminal = false) : journal.pending = journal.otherPending key + 1 := by
  have hkey := h key run hrun
  have hsame : journal.records.insert run.plan.key run = journal.records := by
    refine OMap.ext_get? fun q => ?_
    rw [OMap.get?_insert]
    by_cases hq : q = run.plan.key
    · rw [if_pos hq, hq, hkey, hrun]
    · rw [if_neg hq]
  have hextended := h.pending_extended run
  change ((journal.records.insert run.plan.key run).values.filter _).length = _ at hextended
  rw [hsame, hpending, hkey] at hextended
  exact hextended

theorem cancelling_le (journal : RunJournal) : journal.cancelling ≤ 1 := by
  unfold cancelling
  split
  · exact le_rfl
  · exact Nat.zero_le _

/-- The reserve of a record covers what stays reserved after it. -/
theorem Keyed.pending_le_reserve (h : journal.Keyed) (next : DurableRun) :
    2 * (journal.extended next).pending ≤
      journal.reserve next + (journal.extended next).cancelling := by
  have hcancelling : next.state = .cancelRequested → (journal.extended next).cancelling = 1 := by
    intro hstate
    refine if_pos (List.any_eq_true.2 ⟨next, ?_, by simp [hstate]⟩)
    rw [OMap.mem_values_iff]
    exact ⟨next.plan.key, by rw [get?_extended, if_pos rfl]⟩
  rw [h.pending_extended]
  unfold reserve DurableRun.terminal
  cases hstate : next.state with
  | cancelRequested =>
      rw [hcancelling hstate]
      simp [ownReserve]
      omega
  | intent => simp [ownReserve]; omega
  | prepared => simp [ownReserve]; omega
  | dispatchStarted => simp [ownReserve]; omega
  | tracking => simp [ownReserve]; omega
  | terminal => simp [ownReserve]; omega
  | cancelledBeforeDispatch => simp [ownReserve]; omega

/-- **An accepted record leaves what is reserved**, whatever was left before. -/
theorem Keyed.fits_extended (h : journal.Keyed) (hroom : journal.HasRoom next) :
    (journal.extended next).Fits := by
  have hreserve := h.pending_le_reserve next
  obtain ⟨hframes, hbytes⟩ := hroom
  have hlen : (journal.extended next).bytes.length =
      journal.bytes.length + (frameOverhead + next.encode.length) := by
    change (journal.bytes ++ journal.frame next).length = _
    rw [List.length_append, length_frame]
  constructor
  · change journal.frames + 1 + _ ≤ _
    omega
  · rw [hlen]
    have hscaled := Nat.mul_le_mul_right (maxBody + frameOverhead) hreserve
    rw [Nat.add_mul] at hscaled
    omega

/-- A record whose frame and reserve are within what is reserved has room. -/
theorem Fits.hasRoom (h : journal.Fits)
    (hreserve : 1 + journal.reserve next + journal.cancelling ≤ 2 * journal.pending) :
    journal.HasRoom next := by
  obtain ⟨hframes, hbytes⟩ := h
  have hbody := next.length_encode
  constructor
  · omega
  · have hscaled := Nat.mul_le_mul_right (maxBody + frameOverhead) hreserve
    rw [Nat.add_mul, Nat.add_mul, Nat.one_mul] at hscaled
    omega

/-- **A run that was not dispatched can be cancelled.** -/
theorem Fits.hasRoom_over (h : journal.Fits) (hkeyed : journal.Keyed)
    (hrun : journal.records.get? key = some run) (hpending : run.terminal = false)
    (hkey : next.plan.key = key) (hnext : next.terminal = true) : journal.HasRoom next := by
  refine h.hasRoom ?_
  have hcancelling := journal.cancelling_le
  have hzero : ownReserve next.state = 0 := by
    unfold DurableRun.terminal at hnext
    cases hstate : next.state <;> simp [hstate, ownReserve] at hnext ⊢
  rw [hkeyed.pending_eq hrun hpending, reserve, hkey, hzero]
  omega

/-- The cancellation that is recorded is of the one run that is dispatched. -/
theorem Alone.cancelling_eq (h : journal.Alone)
    (hrun : journal.records.get? key = some run) (hlive : run.Live)
    (hstate : run.state ≠ .cancelRequested) : journal.cancelling = 0 := by
  refine if_neg fun hany => ?_
  obtain ⟨other, hmem, hother⟩ := List.any_eq_true.1 hany
  rw [decide_eq_true_eq] at hother
  obtain ⟨q, hq⟩ := (OMap.mem_values_iff _ _).1 hmem
  have hotherLive : other.Live := by
    unfold Live Dispatched DurableRun.terminal
    simp [hother]
  have hsame := h q key other run hq hrun hotherLive hlive
  rw [hsame, hrun] at hq
  cases hq
  exact hstate hother

/-- **The cancellation of a dispatched run can be recorded.** -/
theorem Fits.hasRoom_cancel (h : journal.Fits) (hkeyed : journal.Keyed) (halone : journal.Alone)
    (hrun : journal.records.get? key = some run) (hlive : run.Live)
    (hstate : run.state ≠ .cancelRequested) (hkey : next.plan.key = key)
    (hnext : next.state = .cancelRequested) : journal.HasRoom next := by
  refine h.hasRoom ?_
  rw [halone.cancelling_eq hrun hlive hstate, hkeyed.pending_eq hrun hlive.2, reserve, hkey,
    hnext]
  simp only [ownReserve]
  omega

/-! ## The invariant -/

section Invariant

variable (endpoints : Endpoints) (honest : Prop) (past : BTreeMap String DurableRun)

/-- What holds of a journal and of the native commits that were called. -/
structure Kept (calls : List String) (journal : RunJournal) : Prop where
  written : journal.Written endpoints
  keyed : journal.Keyed
  fits : journal.Fits
  called : ∀ key ∈ calls, ∃ run, journal.records.get? key = some run ∧ run.Dispatched
  once : calls.Nodup
  alone : honest → journal.Alone
  since : ∀ key run, past.get? key = some run →
    ∃ run', journal.records.get? key = some run' ∧ run.Becomes run'

/-- A frame that may not have been stored as a whole. -/
structure Torn (calls : List String) (s : RunSystem) (next : DurableRun) (kept : Nat) : Prop where
  fenced : s.journal.fenced = true
  accepts : Accepts s.journal next
  follows : ∀ old, s.journal.records.get? next.plan.key = some old → old.Follows next
  after : Kept endpoints honest past calls (s.journal.extended next)
  disk : s.disk = s.journal.bytes ++ (s.journal.frame next).take kept

/-- The invariant of a journal, its storage and the commits. -/
structure Sound (calls : List String) (s : RunSystem) : Prop where
  commits : s.commits = calls
  kept : Kept endpoints honest past calls s.journal
  stored : s.disk = s.journal.bytes ∨ ∃ next kept, Torn endpoints honest past calls s next kept

variable {endpoints honest past} {calls : List String} {s : RunSystem}

/-- Who opened the journal and how does not matter. -/
theorem Kept.congr (h : Kept endpoints honest past calls journal) (owner : SessionId)
    (mode : RunMode) (fenced initializedHere : Bool) :
    Kept endpoints honest past calls { journal with
      owner := owner, mode := mode, fenced := fenced, initializedHere := initializedHere } :=
  ⟨⟨h.written.valid, h.written.parts⟩, h.keyed, ⟨h.fits.frames, h.fits.bytes⟩, h.called, h.once,
    h.alone, h.since⟩

/-- What the code knows of a record before it is appended. -/
structure Justified (honest : Prop) (journal : RunJournal) (next : DurableRun) : Prop where
  kept : ∀ old, journal.records.get? next.plan.key = some old → next.native = none →
    old.native = none ∨ next.state = .cancelledBeforeDispatch
  alone : honest → next.Live → ∀ key run, journal.records.get? key = some run → run.Live →
    key = next.plan.key

theorem Justified.follows (h : Justified honest journal next) (haccept : Accepts journal next)
    {old : DurableRun} (hold : journal.records.get? next.plan.key = some old) : old.Follows next := by
  have hmoves := haccept.moves
  rw [hold] at hmoves
  exact ⟨hmoves, h.kept old hold⟩

/-- **An accepted record keeps the invariant.** -/
theorem Kept.extended (h : Kept endpoints honest past calls journal) (haccept : Accepts journal next)
    (hnext : Justified honest journal next) :
    Kept endpoints honest past calls (journal.extended next) where
  written := h.written.extended haccept
  keyed := h.keyed.extended next
  fits := h.keyed.fits_extended haccept.room
  once := h.once
  called := by
    intro key hkey
    obtain ⟨run, hrun, hdispatched⟩ := h.called key hkey
    by_cases hsame : key = next.plan.key
    · refine ⟨next, by rw [get?_extended, if_pos hsame], ?_⟩
      have hmoves := haccept.moves
      rw [← hsame, hrun] at hmoves
      exact dispatched_of_transition hmoves hdispatched
    · exact ⟨run, by rw [get?_extended, if_neg hsame, hrun], hdispatched⟩
  alone := by
    intro hhonest key key' run run' hrun hrun' hlive hlive'
    rw [get?_extended] at hrun hrun'
    by_cases hkey : key = next.plan.key
    · by_cases hkey' : key' = next.plan.key
      · rw [hkey, hkey']
      · rw [if_pos hkey] at hrun
        rw [if_neg hkey'] at hrun'
        cases hrun
        rw [hkey, hnext.alone hhonest hlive key' run' hrun' hlive']
    · rw [if_neg hkey] at hrun
      by_cases hkey' : key' = next.plan.key
      · rw [if_pos hkey'] at hrun'
        cases hrun'
        exact absurd (hnext.alone hhonest hlive' key run hrun hlive) hkey
      · rw [if_neg hkey'] at hrun'
        exact h.alone hhonest key key' run run' hrun hrun' hlive hlive'
  since := by
    intro key run hpast
    obtain ⟨run', hrun', hbecomes⟩ := h.since key run hpast
    by_cases hsame : key = next.plan.key
    · have hfollows := hnext.follows haccept (hsame ▸ hrun')
      exact ⟨next, by rw [get?_extended, if_pos hsame], hbecomes.tail hfollows⟩
    · exact ⟨run', by rw [get?_extended, if_neg hsame, hrun'], hbecomes⟩

/-- A commit of a key that has a dispatched record and was not called. -/
theorem Sound.call (h : Sound endpoints honest past calls s) (hnew : key ∉ calls)
    (hrun : s.journal.records.get? key = some run) (hdispatched : run.Dispatched)
    (hfenced : s.disk = s.journal.bytes) :
    Sound endpoints honest past (calls ++ [key]) { s with commits := s.commits ++ [key] } where
  commits := by rw [h.commits]
  kept := by
    refine { h.kept with called := ?_, once := ?_ }
    · intro q hq
      rcases List.mem_append.1 hq with hq | hq
      · exact h.kept.called q hq
      · rw [List.mem_singleton.1 hq]
        exact ⟨run, hrun, hdispatched⟩
    · rw [List.nodup_append]
      exact ⟨h.kept.once, List.nodup_singleton key, fun a ha b hb hab =>
        hnew (List.mem_singleton.1 hb ▸ hab ▸ ha)⟩
  stored := .inl hfenced

theorem Sound.fence (h : Sound endpoints honest past calls s) :
    Sound endpoints honest past calls (fence s) where
  commits := h.commits
  kept := h.kept.congr _ _ _ _
  stored := by
    rcases h.stored with hdisk | ⟨next, kept, htorn⟩
    · exact .inl hdisk
    · exact .inr ⟨next, kept, rfl, ⟨htorn.accepts.moves, htorn.accepts.source, htorn.accepts.counted,
        htorn.accepts.room⟩, htorn.follows, htorn.after.congr _ _ _ _, htorn.disk⟩

end Invariant

/-! ## Operations -/

section Operations

variable {endpoints : Endpoints} {honest : Prop} {past : BTreeMap String DurableRun}
  {calls : List String} {s : RunSystem} {o : Outside} {n : Nat}

theorem access_ok {write control : Bool} (h : s.journal.access o n write control = .ok ()) :
    s.journal.fenced = false := by
  unfold access at h
  rw [check_ok_iff, guard_ok_iff, guard_ok_iff] at h
  exact Bool.not_eq_true _ ▸ h.2.2.1

/-- The storage has exactly the bytes of the journal, or the journal is fenced. -/
theorem verify_ends : Ends (fun _ t => t = s ∧ s.journal.fenced = false ∧ s.disk = s.journal.bytes)
    (fun _ t => t = s ∨ t = fence s) (verify o n) s := by
  unfold verify
  refine .get (.of (fun _ => .inl rfl) fun _ haccess => .of (fun _ => .inl rfl) fun _ _ => ?_)
  cases hretained : retained o s n with
  | error e => exact .set (.fails (.inr rfl))
  | ok u =>
      unfold retained at hretained
      rw [check_ok_iff, check_ok_iff, demand_ok_iff, demand_ok_iff] at hretained
      exact .pure ⟨rfl, access_ok haccess, hretained.2.2⟩

/-- The state after a record was appended. -/
def appended (s : RunSystem) (next : DurableRun) : RunSystem :=
  { s with
    journal := s.journal.extended next
    disk := s.journal.bytes ++ s.journal.frame next }

/-- The state after the storage failed. -/
def torn (s : RunSystem) (next : DurableRun) (kept : Nat) : RunSystem :=
  { fence s with disk := s.journal.bytes ++ (s.journal.frame next).take kept }

/-- **What an append does.** -/
theorem append_ends : Ends (fun a t => a = next ∧ Accepts s.journal next ∧ t = appended s next)
    (fun _ t => t = s ∨ ∃ kept, Accepts s.journal next ∧ t = torn s next kept)
    (append o n next) s := by
  unfold append
  refine .get (.of (fun _ => .inl rfl) fun _ _ => .of (fun _ => .inl rfl) fun _ _ => ?_)
  refine .of (fun _ => .inl rfl) fun _ hmoves => .of (fun _ => .inl rfl) fun _ hsource => ?_
  refine .of (fun _ => .inl rfl) fun _ hcounted => .of (fun _ => .inl rfl) fun _ hroom => ?_
  refine .of (fun _ => .inl rfl) fun _ _ => ?_
  have haccepts : Accepts s.journal next := ⟨hmoves, demand_ok_iff.1 hsource,
    demand_ok_iff.1 hcounted, demand_ok_iff.1 hroom⟩
  cases o.published n with
  | synced => exact .set (.pure ⟨rfl, haccepts, rfl⟩)
  | lost kept => exact .set (.fails (.inr ⟨kept, haccepts, rfl⟩))

theorem Sound.appended (h : Sound endpoints honest past calls s) (haccept : Accepts s.journal next)
    (hnext : Justified honest s.journal next) :
    Sound endpoints honest past calls (appended s next) where
  commits := h.commits
  kept := h.kept.extended haccept hnext
  stored := .inl rfl

theorem Sound.torn (h : Sound endpoints honest past calls s) (haccept : Accepts s.journal next)
    (hnext : Justified honest s.journal next) (kept : Nat) :
    Sound endpoints honest past calls (torn s next kept) where
  commits := h.commits
  kept := h.kept.congr _ _ _ _
  stored := .inr ⟨next, kept, rfl, ⟨haccept.moves, haccept.source, haccept.counted, haccept.room⟩,
    fun _ hold => hnext.follows haccept hold, (h.kept.extended haccept hnext).congr _ _ _ _, rfl⟩

/-- **An append keeps the invariant**, whether the frame reaches the storage or not. -/
theorem Sound.append (h : Sound endpoints honest past calls s)
    (hnext : Accepts s.journal next → Justified honest s.journal next) :
    Ends (fun a t => a = next ∧ t = RunJournal.appended s next ∧ Accepts s.journal next ∧
        Sound endpoints honest past calls t)
      (fun _ t => Sound endpoints honest past calls t) (append o n next) s := by
  refine append_ends.conseq ?_ ?_
  · rintro a t ⟨rfl, haccept, rfl⟩
    exact ⟨rfl, rfl, haccept, h.appended haccept (hnext haccept)⟩
  · rintro e t (rfl | ⟨kept, haccept, rfl⟩)
    · exact h
    · exact h.torn haccept (hnext haccept) kept

theorem Sound.verify (h : Sound endpoints honest past calls s) :
    Ends (fun _ t => t = s ∧ s.disk = s.journal.bytes)
      (fun _ t => Sound endpoints honest past calls t) (verify o n) s := by
  refine verify_ends.conseq ?_ ?_
  · rintro a t ⟨rfl, -, hdisk⟩
    exact ⟨rfl, hdisk⟩
  · rintro e t (rfl | rfl)
    · exact h
    · exact h.fence

variable (endpoints honest past calls) in
/-- The invariant holds after the method, successful or not. -/
abbrev Stays {α : Type} (x : Act α) (s : RunSystem) : Prop :=
  Ends (fun _ t => Sound endpoints honest past calls t)
    (fun _ t => Sound endpoints honest past calls t) x s

/-- A record with native evidence of a run that is dispatched, if the evidence says that it is. -/
theorem Sound.justified_native (h : Sound endpoints honest past calls s) {plan : RunPlan}
    {native : RunRecord} {started : Bool}
    (hdispatched : honest → started = true ∨ native.phase ≠ .prepared →
      ∃ run, s.journal.records.get? plan.key = some run ∧ run.Dispatched)
    (haccept : Accepts s.journal ⟨plan, nativeState native started, some native⟩) :
    Justified honest s.journal ⟨plan, nativeState native started, some native⟩ where
  kept := fun _ _ hnone => absurd hnone (Option.some_ne_none native)
  alone := by
    intro hhonest hlive key other hother hotherLive
    have hevidence : started = true ∨ native.phase ≠ .prepared := by
      by_contra hno
      rw [not_or, not_not] at hno
      have hprepared : nativeState native started = .prepared := by
        unfold nativeState
        rw [hno.2]
        simp [RunPhase.terminal, hno.1]
      exact hlive.1 (by simp [hprepared])
    obtain ⟨run, hrun, hrunDispatched⟩ := hdispatched hhonest hevidence
    have hmoves := haccept.moves
    change transition (s.journal.records.get? plan.key) _ = _ at hmoves
    rw [hrun] at hmoves
    have hpending := (transition_some_iff.1 hmoves).2.2.1
    exact h.kept.alone hhonest key plan.key other run hother hrun hotherLive
      ⟨hrunDispatched, hpending⟩

theorem Sound.acceptNative (h : Sound endpoints honest past calls s) {plan : RunPlan}
    {native : RunRecord} {started : Bool}
    (hdispatched : honest → native.plan = plan → started = true ∨ native.phase ≠ .prepared →
      ∃ run, s.journal.records.get? plan.key = some run ∧ run.Dispatched) :
    Stays endpoints honest past calls (acceptNative o n plan native started) s := by
  unfold RunJournal.acceptNative
  rw [native.decode_bytes]
  refine .of (fun _ => h) fun a ha => ?_
  cases ha
  refine .of (fun _ => h) fun _ hplan => .get ?_
  rw [demand_ok_iff] at hplan
  refine .ite (fun _ => .pure h) fun _ => ?_
  refine (h.append fun haccept => h.justified_native (fun hh => hdispatched hh hplan) haccept).conseq
    (fun a t ht => ht.2.2.2) fun e t ht => ht

/-- A source reports a run beyond its preparation only if its commit was called. -/
def Truthful (o : Outside) (calls : List String) : Prop :=
  ∀ native, o.reply = .ok native ∨ o.queried = .ok (some native) → native.phase ≠ .prepared →
    native.plan.key ∈ calls

theorem Sound.called (h : Sound endpoints honest past calls s) (key : String) (hkey : key ∈ calls) :
    ∃ run, s.journal.records.get? key = some run ∧ run.Dispatched := h.kept.called key hkey

/-! ### Preparation -/

theorem Sound.prepareNative (h : Sound endpoints honest past calls s) (plan : RunPlan)
    (ho : honest → Truthful o calls) :
    Stays endpoints honest past calls (prepareNative o plan) s := by
  unfold RunJournal.prepareNative
  refine .of (fun _ => h) fun _ _ => h.verify.bind ?_ fun e t ht => ht
  rintro a t ⟨rfl, -⟩
  refine .get (.of (fun _ => h) fun _ _ => .of (fun _ => h) fun _ _ => ?_)
  refine .of (fun _ => h) fun native hreply => .of (fun _ => h) fun _ _ => ?_
  refine h.acceptNative fun hhonest hplan hevidence => ?_
  have hphase := hevidence.resolve_left Bool.false_ne_true
  exact h.called _ (hplan ▸ ho hhonest native (.inl hreply) hphase)

theorem Sound.prepareNew (h : Sound endpoints honest past calls s) (plan : RunPlan)
    (ho : honest → Truthful o calls) :
    Stays endpoints honest past calls (prepareNew o plan) s := by
  unfold RunJournal.prepareNew
  refine .get (.ite (fun _ => .fails h) fun _ => ?_)
  refine .of (fun _ => h) fun _ _ => .of (fun _ => h) fun _ _ => .of (fun _ => h) fun _ _ => ?_
  refine .of (fun _ => h) fun _ _ => .of (fun _ => h) fun _ _ => .of (fun _ => h) fun _ _ => ?_
  refine .of (fun _ => h) fun _ _ => ?_
  have hintent : Accepts s.journal ⟨plan, .intent, none⟩ →
      Justified honest s.journal ⟨plan, .intent, none⟩ := by
    intro haccept
    refine ⟨fun old hold _ => ?_, fun _ hlive => absurd (by simp) hlive.1⟩
    have hmoves := haccept.moves
    rw [hold] at hmoves
    exact absurd (transition_some_iff.1 hmoves).2.2.2.1 Bool.false_ne_true
  refine (h.append hintent).bind ?_ fun e t ht => ht
  rintro a t ⟨-, -, -, hsound⟩
  exact hsound.prepareNative plan ho

/-- **Preparing a run keeps the invariant.** -/
theorem Sound.prepare (h : Sound endpoints honest past calls s) (plan : RunPlan)
    (ho : honest → Truthful o calls) :
    Stays endpoints honest past calls (prepare o plan) s := by
  unfold RunJournal.prepare
  refine .of (fun _ => h) fun _ _ => h.verify.bind ?_ fun e t ht => ht
  rintro a t ⟨rfl, -⟩
  refine .get (.of (fun _ => h) fun _ _ => .of (fun _ => h) fun _ _ => .of (fun _ => h) fun _ _ => ?_)
  refine .ite (fun _ => ?_) fun _ => h.prepareNew plan ho
  exact .of (fun _ => h) fun _ _ => .of (fun _ => h) fun _ _ => .pure h

/-! ### Commit -/

theorem lookup_ok {digest : Digest32} (h : s.journal.lookup key digest = .ok run) :
    s.journal.records.get? key = some run := by
  unfold lookup at h
  rw [check_ok_iff] at h
  cases hget : s.journal.records.get? key with
  | none =>
      rw [hget] at h
      cases h.2
  | some record =>
      rw [hget, check_ok_iff] at h
      cases h.2.2
      rfl

/-- The commit of a key may be called: its run is prepared, and no run is unresolved. -/
def MayCall (s : RunSystem) (key : String) : Prop :=
  ∃ run, s.journal.records.get? key = some run ∧ run.state = .prepared ∧
    s.journal.anyUnresolved = false

/-- After a commit: nothing was called, or the key, which might be. -/
def Committed (endpoints : Endpoints) (honest : Prop) (past : BTreeMap String DurableRun)
    (calls : List String) (key : String) (allowed : Prop) (t : RunSystem) : Prop :=
  Sound endpoints honest past calls t ∨
    Sound endpoints honest past (calls ++ [key]) t ∧ allowed

theorem Sound.commitNative (h : Sound endpoints honest past calls s) {plan : RunPlan}
    (hkey : plan.key = key) (hrun : s.journal.records.get? key = some run)
    (hdispatched : run.Dispatched) (hnew : key ∉ calls) {allowed : Prop} (hallowed : allowed) :
    Ends (fun _ t => Committed endpoints honest past calls key allowed t)
      (fun _ t => Committed endpoints honest past calls key allowed t) (commitNative o plan) s := by
  unfold RunJournal.commitNative
  refine .of (fun _ => .inl h) fun _ _ => h.verify.bind ?_ fun e t ht => .inl ht
  rintro a t ⟨rfl, hdisk⟩
  refine .get (.of (fun _ => .inl h) fun _ _ => .of (fun _ => .inl h) fun _ _ => ?_)
  have hcalled := h.call hnew hrun hdispatched hdisk
  rw [← hkey] at hcalled hrun
  unfold callCommit
  refine Ends.bind (Q := fun _ u => u = { t with commits := t.commits ++ [plan.key] })
    (E := fun _ u => u = { t with commits := t.commits ++ [plan.key] }) ?_ ?_ ?_
  · cases o.reply with
    | ok native => exact rfl
    | error e => exact rfl
  · rintro native u rfl
    refine .of (fun _ => .inr ⟨hkey ▸ hcalled, hallowed⟩) fun _ _ => ?_
    refine .of (fun _ => .inr ⟨hkey ▸ hcalled, hallowed⟩) fun _ _ => ?_
    refine (hcalled.acceptNative fun _ _ _ => ⟨run, hrun, hdispatched⟩).conseq ?_ ?_
    · exact fun a t ht => .inr ⟨hkey ▸ ht, hallowed⟩
    · exact fun e t ht => .inr ⟨hkey ▸ ht, hallowed⟩
  · rintro e u rfl
    exact .inr ⟨hkey ▸ hcalled, hallowed⟩

theorem Sound.commitPrepared (h : Sound endpoints honest past calls s)
    (hrun : s.journal.records.get? key = some run) (hprepared : run.state = .prepared)
    (hresolved : s.journal.anyUnresolved = false) :
    Ends (fun _ t => Committed endpoints honest past calls key (MayCall s key) t)
      (fun _ t => Committed endpoints honest past calls key (MayCall s key) t)
      (commitPrepared o run) s := by
  have hkey : run.plan.key = key := h.kept.keyed key run hrun
  have hnew : key ∉ calls := by
    intro hcalled
    obtain ⟨other, hother, hdispatched⟩ := h.called key hcalled
    rw [hrun] at hother
    cases hother
    exact hdispatched (by simp [hprepared])
  unfold RunJournal.commitPrepared
  refine .get (.of (fun _ => .inl h) fun _ _ => .of (fun _ => .inl h) fun _ _ => ?_)
  refine .of (fun _ => .inl h) fun _ _ => .of (fun _ => .inl h) fun _ _ => ?_
  refine .of (fun _ => .inl h) fun _ _ => .of (fun _ => .inl h) fun _ _ => ?_
  have hmarker : Accepts s.journal { run with state := .dispatchStarted } →
      Justified honest s.journal { run with state := .dispatchStarted } := by
    intro _
    refine ⟨fun old hold hnone => .inl ?_, fun _ _ q other hother hlive => ?_⟩
    · change s.journal.records.get? run.plan.key = some old at hold
      rw [hkey, hrun] at hold
      cases hold
      exact hnone
    · have hunresolved : s.journal.anyUnresolved = true := List.any_eq_true.2
        ⟨other, (OMap.mem_values_iff _ _).2 ⟨q, hother⟩, hlive.unresolved⟩
      rw [hresolved] at hunresolved
      cases hunresolved
  refine (h.append hmarker).bind ?_ fun e t ht => .inl ht
  rintro a t ⟨-, rfl, -, hsound⟩
  have hstarted : (RunJournal.appended s { run with state := .dispatchStarted }).journal.records.get?
      key = some { run with state := .dispatchStarted } := by
    change (s.journal.extended _).records.get? key = _
    rw [get?_extended, if_pos hkey.symm]
  refine .mapError (hsound.commitNative hkey hstarted ?_ hnew ⟨run, hrun, hprepared, hresolved⟩)
  unfold Dispatched
  simp

/-- **A commit keeps the invariant**, and calls the native commit of a prepared run only, when no run
is unresolved. -/
theorem Sound.commit (h : Sound endpoints honest past calls s) (key : String) (digest : Digest32) :
    Ends (fun _ t => Committed endpoints honest past calls key (MayCall s key) t)
      (fun _ t => Committed endpoints honest past calls key (MayCall s key) t)
      (commit o key digest) s := by
  unfold RunJournal.commit
  refine .of (fun _ => .inl h) fun _ _ => h.verify.bind ?_ fun e t ht => .inl ht
  rintro a t ⟨rfl, -⟩
  refine .get (.of (fun _ => .inl h) fun _ _ => .of (fun _ => .inl h) fun run hlookup => ?_)
  refine .of (fun _ => .inl h) fun _ _ => .ite (fun _ => .pure (.inl h)) fun _ => ?_
  refine .ite (fun _ => .fails (.inl h)) fun hready => ?_
  simp only [Bool.or_eq_true, decide_eq_true_eq, not_or, not_not, Bool.not_eq_true] at hready
  exact h.commitPrepared (lookup_ok hlookup) hready.1 hready.2

/-! ### Reconciliation and cancellation -/

theorem dispatched_of_pending (hpending : run.terminal = false)
    (hstate : run.state ∉ [RunState.intent, .prepared]) : run.Dispatched := by
  unfold Dispatched
  unfold DurableRun.terminal at hpending
  simp only [decide_eq_false_iff_not, List.mem_cons, List.not_mem_nil, or_false, not_or] at *
  tauto

/-- **Reconciling a run keeps the invariant.** -/
theorem Sound.reconcile (h : Sound endpoints honest past calls s) (key : String) (digest : Digest32)
    (ho : honest → Truthful o calls) :
    Stays endpoints honest past calls (reconcile o key digest) s := by
  unfold RunJournal.reconcile
  refine .of (fun _ => h) fun _ _ => h.verify.bind ?_ fun e t ht => ht
  rintro a t ⟨rfl, -⟩
  refine .get (.of (fun _ => h) fun _ _ => .of (fun _ => h) fun run hlookup => ?_)
  have hrun := lookup_ok hlookup
  have hkey : run.plan.key = key := h.kept.keyed key run hrun
  refine .ite (fun _ => .pure h) fun hpending => ?_
  rw [Bool.not_eq_true] at hpending
  refine .of (fun _ => h) fun _ _ => .of (fun _ => h) fun queried hqueried => ?_
  cases queried with
  | none => exact .fails h
  | some native =>
      refine .of (fun _ => h) fun _ _ => h.acceptNative fun hhonest hplan hevidence => ?_
      rcases hevidence with hstarted | hphase
      · rw [decide_eq_true_eq] at hstarted
        exact ⟨run, by rw [hkey, hrun], dispatched_of_pending hpending hstarted⟩
      · exact h.called _ (hplan ▸ ho hhonest native (.inr hqueried) hphase)

theorem Sound.cancelNative (h : Sound endpoints honest past calls s) {plan : RunPlan}
    (hrun : s.journal.records.get? plan.key = some run) (hdispatched : run.Dispatched) :
    Stays endpoints honest past calls (cancelNative o plan) s := by
  unfold RunJournal.cancelNative
  refine .of (fun _ => h) fun _ _ => .of (fun _ => h) fun native _ => .of (fun _ => h) fun _ _ => ?_
  exact h.acceptNative fun _ _ _ => ⟨run, hrun, hdispatched⟩

theorem Sound.cancelDispatched (h : Sound endpoints honest past calls s)
    (hrun : s.journal.records.get? key = some run) (hlive : run.Live) :
    Stays endpoints honest past calls (cancelDispatched o run) s := by
  have hkey : run.plan.key = key := h.kept.keyed key run hrun
  rw [← hkey] at hrun
  unfold RunJournal.cancelDispatched
  refine .of (fun _ => h) fun _ _ => .ite (fun _ => ?_) fun _ => .mapError (h.cancelNative hrun hlive.1)
  have hrequest : Accepts s.journal { run with state := .cancelRequested } →
      Justified honest s.journal { run with state := .cancelRequested } := by
    intro _
    refine ⟨fun old hold hnone => .inl ?_, fun hhonest _ q other hother hotherLive => ?_⟩
    · change s.journal.records.get? run.plan.key = some old at hold
      rw [hrun] at hold
      cases hold
      exact hnone
    · exact h.kept.alone hhonest q run.plan.key other run hother hrun hotherLive hlive
  refine (h.append hrequest).bind ?_ fun e t ht => ht
  rintro a t ⟨-, rfl, -, hsound⟩
  have hrequested : (RunJournal.appended s { run with state := .cancelRequested }).journal.records.get?
      run.plan.key = some { run with state := .cancelRequested } := by
    change (s.journal.extended _).records.get? run.plan.key = _
    rw [get?_extended, if_pos rfl]
  refine .mapError (hsound.cancelNative hrequested ?_)
  unfold Dispatched
  simp

/-- **Cancelling a run keeps the invariant.** -/
theorem Sound.cancel (h : Sound endpoints honest past calls s) (key : String) (digest : Digest32) :
    Stays endpoints honest past calls (cancel o key digest) s := by
  unfold RunJournal.cancel
  refine .of (fun _ => h) fun _ _ => h.verify.bind ?_ fun e t ht => ht
  rintro a t ⟨rfl, -⟩
  refine .get (.of (fun _ => h) fun _ _ => .of (fun _ => h) fun run hlookup => ?_)
  have hrun := lookup_ok hlookup
  refine .ite (fun _ => .pure h) fun hpending => ?_
  rw [Bool.not_eq_true] at hpending
  refine .ite (fun _ => ?_) fun hstate => ?_
  · refine (h.append fun _ => ⟨fun _ _ _ => .inr rfl, fun _ hlive => ?_⟩).conseq
      (fun a t ht => ht.2.2.2) fun e t ht => ht
    exact absurd (by simp) hlive.1
  · exact h.cancelDispatched hrun ⟨dispatched_of_pending hpending hstate, hpending⟩

/-! ### Opening again -/

/-- **Opening what is stored keeps the invariant.** -/
theorem Sound.opened (h : Sound endpoints honest past calls s) {mode : RunMode}
    {expected : Option RunBinding} {opened : RunJournal}
    (hopen : openStored o endpoints mode expected s.disk = .ok opened) :
    Sound endpoints honest past calls { s with journal := opened } := by
  have hbytes := openStored_bytes hopen
  refine ⟨h.commits, ?_, .inl hbytes.symm⟩
  rcases h.stored with hdisk | ⟨next, kept, htorn⟩
  · rw [hdisk] at hopen
    rw [show opened = _ from h.kept.written.openStored_same hopen]
    exact h.kept.congr _ _ _ _
  · rw [htorn.disk] at hopen
    rcases h.kept.written.openStored_cases htorn.accepts hopen with hsame | hmore
    · rw [show opened = _ from hsame]
      exact h.kept.congr _ _ _ _
    · rw [show opened = _ from hmore]
      exact htorn.after.congr _ _ _ _

theorem Sound.reopen (h : Sound endpoints honest past calls s) (mode : RunMode)
    (expected : Option RunBinding) :
    Stays endpoints honest past calls (reopen o endpoints mode expected) s := by
  unfold RunJournal.reopen
  refine .get (.of (fun _ => h) fun opened hopen => ?_)
  exact h.opened hopen

theorem get?_create (o : Outside) (binding : RunBinding) (key : String) :
    (create o binding).records.get? key = none := OMap.get?_nil key

theorem fits_create {binding : RunBinding} (h : binding.Valid endpoints) (o : Outside) :
    (create o binding).Fits := by
  have hheader := binding.length_initialHeader o.session o.request
  have hbinding := h.decode_encode.2
  have hpending : (create o binding).pending = 0 := rfl
  constructor
  · rw [hpending]
    exact Nat.zero_le _
  · rw [hpending]
    change (binding.initialHeader o.session o.request).1.length + _ ≤ _
    simp only [maxJournalBytes]
    omega

/-- **A new journal satisfies the invariant.** -/
theorem sound_initial {binding : RunBinding} (h : binding.Valid endpoints) (o : Outside) :
    Sound endpoints honest .nil [] (initial o binding) := by
  refine ⟨rfl, ⟨written_create o h, ?_, fits_create h o, ?_, List.nodup_nil, ?_, ?_⟩, .inl rfl⟩
  · intro key run hrun
    rw [initial, get?_create] at hrun
    cases hrun
  · intro key hkey
    cases hkey
  · intro _ key key' run run' hrun
    rw [initial, get?_create] at hrun
    cases hrun
  · intro key run hrun
    rw [OMap.get?_nil] at hrun
    cases hrun

/-- The commits that an operation may add to these. -/
def Op.adds : Op → List String
  | .commit key _ => [key]
  | _ => []

/-- **Every operation keeps the invariant**, and adds at most the commit of its key. -/
theorem Sound.after (h : Sound endpoints honest past calls s) (op : Op)
    (ho : honest → Truthful o (calls ++ op.adds)) :
    Sound endpoints honest past calls (after o endpoints s op) ∨
      ∃ key digest, op = .commit key digest ∧ MayCall s key ∧
        Sound endpoints honest past (calls ++ [key]) (after o endpoints s op) := by
  cases op with
  | prepare plan =>
      change honest → Truthful o (calls ++ []) at ho
      rw [List.append_nil] at ho
      exact .inl (h.prepare plan ho).leaves
  | commit key digest =>
      rcases (h.commit key digest).leaves with hsame | ⟨hmore, hmay⟩
      · exact .inl hsame
      · exact .inr ⟨key, digest, rfl, hmay, hmore⟩
  | reconcile key digest =>
      change honest → Truthful o (calls ++ []) at ho
      rw [List.append_nil] at ho
      exact .inl (h.reconcile key digest ho).leaves
  | cancel key digest => exact .inl (h.cancel key digest).leaves
  | reopen mode expected => exact .inl (h.reopen mode expected).leaves

end Operations

end RunJournal

end BoundedRun

end Dfmcp
