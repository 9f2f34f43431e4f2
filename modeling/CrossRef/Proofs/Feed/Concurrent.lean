import CrossRef.Feed.Recording
import CrossRef.Proofs.Feed.Conclusion
import Mathlib.Order.Nat

namespace CrossRef.Feed

variable {σ τ α : Type}

namespace Queue

/-- Slots in all: taken by items, free, or kept for a sender. -/
def slots (q : Queue Call) : Nat := q.items.length + q.free + q.reserved.length

theorem slots_ofCapacity (capacity : Nat) : (ofCapacity capacity).slots = max capacity 1 := by
  simp [slots, ofCapacity]

theorem slots_push (call : Call) (q : Queue Call) : (q.push call).slots = q.slots + 1 := by
  simp [slots, push]
  omega

theorem slots_release (q : Queue Call) : q.release.slots = q.slots + 1 := by
  unfold release
  split <;> simp [slots] <;> omega

theorem items_release (q : Queue Call) : q.release.items = q.items := by
  unfold release
  split <;> rfl

theorem closed_release (q : Queue Call) : q.release.closed = q.closed := by
  unfold release
  split <;> rfl

theorem slots_erase {q : Queue Call} {i : Nat} (h : i ∈ q.reserved) :
    { q with reserved := q.reserved.erase i }.slots + 1 = q.slots := by
  have hpos : 0 < q.reserved.length := List.length_pos_of_mem h
  simp only [slots, List.length_erase_of_mem h]
  omega

theorem slots_send (i : Nat) (call : Call) (q : Queue Call) : (q.send i call).2.slots = q.slots := by
  unfold send
  split
  · rfl
  · split
    case isTrue h => rw [slots_push, slots_erase h]
    case isFalse =>
      split
      · rfl
      · split
        case h_1 free hf => rw [slots_push]; simp only [slots, hf]; omega
        case h_2 => rfl

theorem send_accepted {i : Nat} {call : Call} {q q' : Queue Call}
    (h : q.send i call = (.accepted, q')) :
    q.closed = false ∧ q'.closed = false ∧ q'.items = q.items ++ [call] := by
  unfold send at h
  split at h
  · simp at h
  case isFalse ho =>
    have ho : q.closed = false := by simpa using ho
    split at h
    · obtain ⟨-, rfl⟩ := Prod.mk.inj h
      exact ⟨ho, ho, rfl⟩
    · split at h
      · simp at h
      · split at h
        · obtain ⟨-, rfl⟩ := Prod.mk.inj h
          exact ⟨ho, ho, rfl⟩
        · simp at h

theorem send_not_accepted {i : Nat} {call : Call} {q q' : Queue Call} {sending : Sending}
    (h : q.send i call = (sending, q')) (hne : sending ≠ .accepted) :
    q'.closed = q.closed ∧ q'.items = q.items := by
  unfold send at h
  split at h
  · obtain ⟨-, rfl⟩ := Prod.mk.inj h
    exact ⟨rfl, rfl⟩
  · split at h
    · exact absurd (Prod.mk.inj h).1.symm hne
    · split at h
      · obtain ⟨-, rfl⟩ := Prod.mk.inj h
        exact ⟨rfl, rfl⟩
      · split at h
        · exact absurd (Prod.mk.inj h).1.symm hne
        · obtain ⟨-, rfl⟩ := Prod.mk.inj h
          exact ⟨rfl, rfl⟩

theorem take?_eq_some {call : Call} {q q' : Queue Call} (h : q.take? = some (call, q')) :
    q.items = call :: q'.items ∧ q'.closed = q.closed ∧ q'.slots = q.slots := by
  unfold take? at h
  split at h
  · simp at h
  case h_2 a rest hitems =>
    obtain ⟨rfl, rfl⟩ := Prod.mk.inj (Option.some.inj h)
    refine ⟨by rw [items_release, hitems], closed_release _, ?_⟩
    rw [slots_release]
    simp only [slots, hitems, List.length_cons]
    omega

theorem withdraw_spec (i : Nat) (q : Queue Call) :
    (q.withdraw i).items = q.items ∧ (q.withdraw i).closed = q.closed ∧
      (q.withdraw i).slots = q.slots := by
  unfold withdraw
  split
  case isTrue h => exact ⟨items_release _, closed_release _, by rw [slots_release, slots_erase h]⟩
  case isFalse => exact ⟨rfl, rfl, rfl⟩

theorem slots_close (q : Queue Call) : q.close.slots ≤ q.slots := by
  simp [slots, close]

end Queue

/-- A session in the middle. A sending has a number of its own and lasts until the queue accepts or
refuses its call. `accepted` is what the queue accepted, in order, and `applied` what was asked of
the transaction; the last of these calls may have failed. -/
structure Session (τ α : Type) where
  queue : Queue Call
  sending : Nat → Option Call
  handles : Nat
  accepted : List Call
  applied : List Call
  worker : Progress
  task : Option (Except Fault α)
  target : τ

/-- What a session leaves: the log of its transaction, what is reported, and to what state. A
session that is cancelled reports to nobody. -/
structure Ending (σ α : Type) where
  log : List Entry
  result : Option (Except Fault α)
  left : σ

namespace Session

variable (p : Provider σ τ)

/-- One handle, nothing sent. -/
def start (capacity : Nat) (tx : τ) : Session τ α :=
  ⟨.ofCapacity capacity, fun _ => none, 1, [], [], .running, none, tx⟩

/-- A sending tries its call, for the first time or again. -/
def poll (i : Nat) (call : Call) (x : Session τ α) : Session τ α :=
  match x.queue.send i call with
  | (.accepted, q) =>
    { x with
      queue := q
      sending := Function.update x.sending i none
      accepted := x.accepted ++ [call] }
  | (.waiting, q) => { x with queue := q }
  | (.refused, q) => { x with queue := q, sending := Function.update x.sending i none }

/-- The worker carries out a call that it took; one that fails ends the worker. -/
def work (call : Call) (q : Queue Call) (x : Session τ α) : Session τ α :=
  match p.apply call x.target with
  | (.error fault, tx) =>
    { x with
      queue := q.close
      applied := x.applied ++ [call]
      worker := .ended (.error fault)
      target := tx }
  | (.ok (), tx) => { x with queue := q, applied := x.applied ++ [call], target := tx }

/-- What may happen next. Whoever holds a clone of the handle may send whatever call at whatever time,
and all of it may be cancelled. The worker rests when no handle is left to fill the empty queue; the
task that opened the session may return while others still hold handles. -/
inductive Step : Session τ α → Session τ α → Prop
  | clone {x : Session τ α} : 0 < x.handles → Step x { x with handles := x.handles + 1 }
  | submit {x : Session τ α} (i : Nat) (call : Call) : 0 < x.handles → x.sending i = none →
      Step x { x with sending := Function.update x.sending i (some call) }
  | poll {x : Session τ α} {i : Nat} {call : Call} : x.sending i = some call →
      Step x (x.poll i call)
  | abandon {x : Session τ α} (i : Nat) :
      Step x { x with
        queue := x.queue.withdraw i
        sending := Function.update x.sending i none }
  | drop {x : Session τ α} : 0 < x.handles → (x.handles = 1 → ∀ i, x.sending i = none) →
      Step x { x with handles := x.handles - 1 }
  | work {x : Session τ α} {call : Call} {q : Queue Call} : x.worker = .running →
      x.queue.take? = some (call, q) → Step x (x.work p call q)
  | rest {x : Session τ α} : x.worker = .running → x.queue.items = [] → x.handles = 0 →
      Step x { x with worker := .ended (.ok x.applied.length) }
  | finish {x : Session τ α} (result : Except Fault α) : x.task = none →
      Step x { x with task := some result }
  | cancel {x : Session τ α} : x.task = none ∨ x.worker = .running →
      Step x { x with queue := x.queue.close, worker := .cancelled }

/-- The states of a session on `s`. -/
inductive Reaches (artifact : String) (capacity : Nat) (s : σ) : Session τ α → Prop
  | start {tx : τ} : p.begin artifact s = .ok tx → Reaches artifact capacity s (start capacity tx)
  | step {x y : Session τ α} : Reaches artifact capacity s x → Step p x y →
      Reaches artifact capacity s y

/-- A session ends when the worker and the task have ended, or when it is cancelled. -/
def ending? (artifact : String) (x : Session τ α) : Option (Ending σ α) :=
  let log := Entry.begin artifact :: x.applied.map Entry.call
  match x.worker, x.task with
  | .cancelled, _ => some ⟨log ++ [.rollback], none, p.rollback x.target⟩
  | .ended (.error fault), some _ =>
    some ⟨log ++ [.rollback], some (.error fault), p.rollback x.target⟩
  | .ended (.ok _), some (.error fault) =>
    some ⟨log ++ [.rollback], some (.error fault), p.rollback x.target⟩
  | .ended (.ok _), some (.ok a) =>
    some ⟨log ++ [.commit], some ((p.commit x.target).1.map fun _ => a), (p.commit x.target).2⟩
  | _, _ => none

/-- The ways in which a session that began with `tx` may end: committed behind all accepted calls,
at the first call that fails, at the fault of its task, or cancelled. -/
inductive Shape (artifact : String) (tx : τ) (x : Session τ α) : Ending σ α → Prop
  | committed {tx' : τ} {a : α} : p.applyAll x.accepted tx = (.ok (), tx') →
      x.task = some (.ok a) →
      Shape artifact tx x ⟨.begin artifact :: x.accepted.map .call ++ [.commit],
        some ((p.commit tx').1.map fun _ => a), (p.commit tx').2⟩
  | callFailed {done later : List Call} {call : Call} {tx₁ tx₂ : τ} {fault : Fault} :
      x.accepted = done ++ call :: later → p.applyAll done tx = (.ok (), tx₁) →
      p.apply call tx₁ = (.error fault, tx₂) →
      Shape artifact tx x ⟨.begin artifact :: (done ++ [call]).map .call ++ [.rollback],
        some (.error fault), p.rollback tx₂⟩
  | taskFailed {tx' : τ} {fault : Fault} : p.applyAll x.accepted tx = (.ok (), tx') →
      x.task = some (.error fault) →
      Shape artifact tx x ⟨.begin artifact :: x.accepted.map .call ++ [.rollback],
        some (.error fault), p.rollback tx'⟩
  | cancelled {done later : List Call} : x.accepted = done ++ later →
      Shape artifact tx x ⟨.begin artifact :: done.map .call ++ [.rollback], none,
        p.rollback (p.applyAll done tx).2⟩

/-- Accepted calls are carried out in order; behind a call that failed, and behind a cancellation,
the queue is closed and what is left of them is lost. -/
def Flow (tx : τ) (x : Session τ α) : Prop :=
  match x.worker with
  | .running => x.queue.closed = false ∧ x.accepted = x.applied ++ x.queue.items ∧
      p.applyAll x.applied tx = (.ok (), x.target)
  | .ended (.ok _) => x.handles = 0 ∧ x.accepted = x.applied ∧
      p.applyAll x.applied tx = (.ok (), x.target)
  | .ended (.error fault) => x.queue.closed = true ∧ ∃ done call later tx₁,
      x.applied = done ++ [call] ∧ x.accepted = x.applied ++ later ∧
      p.applyAll done tx = (.ok (), tx₁) ∧ p.apply call tx₁ = (.error fault, x.target)
  | .cancelled => x.queue.closed = true ∧ ∃ later, x.accepted = x.applied ++ later ∧
      x.target = (p.applyAll x.applied tx).2

/-- What holds in every state of a session that began with `tx`. -/
structure Steady (capacity : Nat) (tx : τ) (x : Session τ α) : Prop where
  flow : x.Flow p tx
  idle : x.handles = 0 → ∀ i, x.sending i = none
  room : x.queue.slots ≤ max capacity 1

variable {p}

theorem steady_start (capacity : Nat) (tx : τ) :
    (start capacity tx : Session τ α).Steady p capacity tx :=
  ⟨⟨rfl, rfl, rfl⟩, fun h => by simp [start] at h, (Queue.slots_ofCapacity capacity).le⟩

/-- A step that only moves handles, sendings and slots leaves the flow of calls alone. -/
theorem Flow.congr {tx : τ} {x y : Session τ α} (h : x.Flow p tx) (hw : y.worker = x.worker)
    (ha : y.accepted = x.accepted) (hd : y.applied = x.applied) (ht : y.target = x.target)
    (hc : y.queue.closed = x.queue.closed) (hi : y.queue.items = x.queue.items)
    (hh : x.handles = 0 → y.handles = 0) : y.Flow p tx := by
  unfold Flow at h ⊢
  rw [hw, ha, hd, ht, hc, hi]
  split at h
  · exact h
  · exact ⟨hh h.1, h.2⟩
  · exact h
  · exact h

theorem steady_poll {capacity : Nat} {tx : τ} {x : Session τ α} (h : x.Steady p capacity tx)
    {i : Nat} {call : Call} (hs : x.sending i = some call) :
    (x.poll i call).Steady p capacity tx := by
  obtain ⟨hflow, hidle, hroom⟩ := h
  have hbusy : x.handles ≠ 0 := fun h0 => by simp [hidle h0 i] at hs
  have hslots := Queue.slots_send i call x.queue
  cases hsend : x.queue.send i call with
  | mk outcome q =>
    rw [hsend] at hslots
    cases outcome with
    | accepted =>
      obtain ⟨ho, ho', hitems⟩ := Queue.send_accepted hsend
      simp only [poll, hsend]
      refine ⟨?_, fun h0 => absurd h0 hbusy, hslots.le.trans hroom⟩
      unfold Flow at hflow ⊢
      simp only at hflow ⊢
      split at hflow
      · obtain ⟨-, hacc, happ⟩ := hflow
        have hacc' : x.accepted ++ [call] = x.applied ++ q.items := by
          rw [hacc, hitems, List.append_assoc]
        exact ⟨ho', hacc', happ⟩
      · exact absurd hflow.1 hbusy
      · simp [hflow.1] at ho
      · simp [hflow.1] at ho
    | waiting =>
      obtain ⟨hc, hitems⟩ := Queue.send_not_accepted hsend (by simp)
      simp only [poll, hsend]
      exact ⟨hflow.congr rfl rfl rfl rfl hc hitems id, hidle, hslots.le.trans hroom⟩
    | refused =>
      obtain ⟨hc, hitems⟩ := Queue.send_not_accepted hsend (by simp)
      simp only [poll, hsend]
      exact ⟨hflow.congr rfl rfl rfl rfl hc hitems id, fun h0 => absurd h0 hbusy,
        hslots.le.trans hroom⟩

theorem steady_work {capacity : Nat} {tx : τ} {x : Session τ α} (h : x.Steady p capacity tx)
    {call : Call} {q : Queue Call} (hw : x.worker = .running)
    (ht : x.queue.take? = some (call, q)) : (x.work p call q).Steady p capacity tx := by
  obtain ⟨hflow, hidle, hroom⟩ := h
  obtain ⟨hitems, hclosed, hslots⟩ := Queue.take?_eq_some ht
  have hrun : x.queue.closed = false ∧ x.accepted = x.applied ++ x.queue.items ∧
      p.applyAll x.applied tx = (.ok (), x.target) := by
    unfold Flow at hflow
    simpa only [hw] using hflow
  obtain ⟨ho, hacc, happ⟩ := hrun
  have hacc' : x.accepted = x.applied ++ [call] ++ q.items := by
    rw [hacc, hitems, List.append_assoc, List.singleton_append]
  cases ha : p.apply call x.target with
  | mk outcome next =>
    cases outcome with
    | error fault =>
      have hroom' : q.close.slots ≤ max capacity 1 := by
        have hclose := Queue.slots_close q
        omega
      simp only [work, ha]
      exact ⟨⟨rfl, x.applied, call, q.items, x.target, rfl, hacc', happ, ha⟩, hidle, hroom'⟩
    | ok u =>
      have happ' : p.applyAll (x.applied ++ [call]) tx = (.ok (), next) := by
        rw [p.applyAll_append_of_ok happ, p.applyAll_of_ok ha]
        rfl
      simp only [work, ha]
      refine ⟨?_, hidle, hslots.le.trans hroom⟩
      unfold Flow
      simp only [hw]
      exact ⟨hclosed.trans ho, hacc', happ'⟩

theorem Flow.cancel {tx : τ} {x : Session τ α} (h : x.Flow p tx) :
    ∃ later, x.accepted = x.applied ++ later ∧ x.target = (p.applyAll x.applied tx).2 := by
  unfold Flow at h
  split at h
  · exact ⟨x.queue.items, h.2.1, by rw [h.2.2]⟩
  · exact ⟨[], by rw [h.2.1, List.append_nil], by rw [h.2.2]⟩
  · obtain ⟨-, done, call, later, tx₁, happ, hacc, hok, hfail⟩ := h
    refine ⟨later, hacc, ?_⟩
    rw [happ, p.applyAll_append_of_ok hok, p.applyAll_of_error hfail]
  · exact ⟨_, h.2.choose_spec⟩

theorem steady_step {capacity : Nat} {tx : τ} {x y : Session τ α} (h : x.Steady p capacity tx)
    (hs : Step p x y) : y.Steady p capacity tx := by
  cases hs with
  | clone hpos =>
    exact ⟨h.flow.congr rfl rfl rfl rfl rfl rfl (by omega), fun h0 => by simp at h0, h.room⟩
  | submit i call hpos _ =>
    exact ⟨h.flow.congr rfl rfl rfl rfl rfl rfl id, fun h0 => absurd h0 hpos.ne', h.room⟩
  | poll hsend => exact steady_poll h hsend
  | abandon i =>
    obtain ⟨hitems, hclosed, hslots⟩ := Queue.withdraw_spec i x.queue
    refine ⟨h.flow.congr rfl rfl rfl rfl hclosed hitems id, ?_, hslots.le.trans h.room⟩
    intro h0 j
    have hnone := h.idle h0 j
    by_cases hj : j = i
    · simp [hj]
    · simpa [hj] using hnone
  | drop hpos hlast =>
    refine ⟨h.flow.congr rfl rfl rfl rfl rfl rfl (by omega), ?_, h.room⟩
    intro h0
    change x.handles - 1 = 0 at h0
    have hone : x.handles = 1 := by omega
    exact hlast hone
  | work hw ht => exact steady_work h hw ht
  | rest hw hitems hh =>
    refine ⟨?_, h.idle, h.room⟩
    have hflow := h.flow
    unfold Flow at hflow
    simp only [hw, hitems, List.append_nil] at hflow
    exact ⟨hh, hflow.2⟩
  | finish result _ => exact ⟨h.flow.congr rfl rfl rfl rfl rfl rfl id, h.idle, h.room⟩
  | cancel _ =>
    exact ⟨⟨rfl, h.flow.cancel⟩, h.idle, (Queue.slots_close _).trans h.room⟩

theorem steady_of_reaches {artifact : String} {capacity : Nat} {s : σ} {x : Session τ α}
    (h : Reaches p artifact capacity s x) :
    ∃ tx, p.begin artifact s = .ok tx ∧ x.Steady p capacity tx := by
  induction h with
  | start hb => exact ⟨_, hb, steady_start capacity _⟩
  | step _ hs ih =>
    obtain ⟨tx, hb, hx⟩ := ih
    exact ⟨tx, hb, steady_step hx hs⟩

theorem Flow.shape {artifact : String} {tx : τ} {x : Session τ α} (h : x.Flow p tx)
    {e : Ending σ α} (he : x.ending? p artifact = some e) : x.Shape p artifact tx e := by
  obtain ⟨q, sending, handles, accepted, applied, worker, task, target⟩ := x
  cases worker with
  | running => simp [ending?] at he
  | cancelled =>
    obtain ⟨-, later, hacc, htarget⟩ := h
    obtain rfl : _ = e := Option.some.inj he
    rw [show target = _ from htarget]
    exact .cancelled hacc
  | ended result =>
    cases result with
    | error fault =>
      obtain ⟨-, done, call, later, tx₁, happ, hacc, hok, hfail⟩ := h
      cases task with
      | none => simp [ending?] at he
      | some result =>
        obtain rfl : _ = e := Option.some.inj he
        rw [show applied = _ from happ]
        have hsplit : accepted = done ++ call :: later := by
          change accepted = _ at hacc
          rw [hacc, happ, List.append_assoc, List.singleton_append]
        exact .callFailed hsplit hok hfail
    | ok n =>
      obtain ⟨-, hacc, hok⟩ := h
      obtain rfl : accepted = applied := hacc
      cases task with
      | none => simp [ending?] at he
      | some result =>
        cases result with
        | error fault =>
          obtain rfl : _ = e := Option.some.inj he
          exact .taskFailed hok rfl
        | ok a =>
          obtain rfl : _ = e := Option.some.inj he
          exact .committed hok rfl

/-- Whatever the order of the steps: calls are carried out in the order in which they were accepted,
each once and as it was sent, no more of them wait than the queue has slots, and the session ends in
one of four ways. -/
theorem reaches_shape (p : Provider σ τ) (artifact : String) (capacity : Nat) (s : σ)
    (x : Session τ α) (h : Reaches p artifact capacity s x) :
    ∃ tx, p.begin artifact s = .ok tx ∧
      x.applied <+: x.accepted ∧ x.target = (p.applyAll x.applied tx).2 ∧
      x.queue.items.length ≤ max capacity 1 ∧
      (x.worker = .running → x.accepted = x.applied ++ x.queue.items) ∧
      ∀ e, x.ending? p artifact = some e → x.Shape p artifact tx e := by
  obtain ⟨tx, hb, hx⟩ := steady_of_reaches h
  obtain ⟨later, hacc, htarget⟩ := hx.flow.cancel
  refine ⟨tx, hb, ⟨later, hacc.symm⟩, htarget, ?_, ?_, fun e he => hx.flow.shape he⟩
  · have hroom := hx.room
    unfold Queue.slots at hroom
    omega
  · intro hw
    have hflow := hx.flow
    unfold Flow at hflow
    simp only [hw] at hflow
    exact hflow.2.1

/-- Two handles and a full queue: a third call waits for its slot and is accepted behind one that
fails. The fault of that call is reported, not that of the task. -/
theorem reaches_shape_waiting :
    ∃ (w x : Session Recording Nat) (tx : Recording) (e : Ending Recording Nat),
      Reaches Recording.provider "a" 2 { failAt := some 1 } w ∧ w.handles = 2 ∧
      w.sending 2 = some (.insertAlias "a" "e") ∧ w.queue.line = [2] ∧
      w.queue.items = [.insertDependency "a" "b", .insertDependency "a" "c"] ∧
      w.queue.items.length ≤ max 2 1 ∧
      Reaches Recording.provider "a" 2 { failAt := some 1 } x ∧
      x.accepted = [.insertDependency "a" "b", .insertDependency "a" "c", .insertAlias "a" "e"] ∧
      x.applied <+: x.accepted ∧ x.task = some (.error (.producerFailed "late")) ∧
      x.ending? Recording.provider "a" = some e ∧ x.Shape Recording.provider "a" tx e ∧
      e.log = [.begin "a", .call (.insertDependency "a" "b"), .call (.insertDependency "a" "c"),
        .rollback] ∧
      e.result = some (.error (Recording.injected s!"failure at call {1}")) := by
  have hstart : Reaches Recording.provider "a" 2 { failAt := some 1 }
      (start 2 _ : Session Recording Nat) := .start rfl
  have hclone := hstart.step (.clone (by decide))
  have hfirst := (hclone.step (.submit 0 (.insertDependency "a" "b") (by decide) rfl)).step
    (.poll (i := 0) rfl)
  have hsecond := (hfirst.step (.submit 1 (.insertDependency "a" "c") (by decide) rfl)).step
    (.poll (i := 1) rfl)
  have hwaits := (hsecond.step (.submit 2 (.insertAlias "a" "e") (by decide) rfl)).step
    (.poll (i := 2) rfl)
  have hkept := hwaits.step (.work rfl rfl)
  have hthird := hkept.step (.poll (i := 2) rfl)
  have hdrop := hthird.step (.drop (by decide) fun hone => absurd hone (by decide))
  have hfinish := hdrop.step (.finish (.error (.producerFailed "late")) rfl)
  have hfails := hfinish.step (.work rfl rfl)
  obtain ⟨-, -, -, -, hroom, -⟩ := reaches_shape Recording.provider "a" 2 _ _ hwaits
  obtain ⟨tx, -, horder, -, -, -, hshape⟩ := reaches_shape Recording.provider "a" 2 _ _ hfails
  exact ⟨_, _, tx, _, hwaits, rfl, rfl, rfl, rfl, hroom, hfails, rfl, horder, rfl, rfl,
    hshape _ rfl, rfl, rfl⟩

end Session

end CrossRef.Feed
