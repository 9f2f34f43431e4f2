import CrossRef.Feed.Session
import Mathlib.Tactic.Common

namespace CrossRef.Feed

variable {σ τ α : Type}

/-- Carries out calls in order, up to the first that fails. -/
def Provider.applyAll (p : Provider σ τ) : List Call → τ → Except Fault Unit × τ
  | [], tx => (.ok (), tx)
  | call :: rest, tx =>
    match p.apply call tx with
    | (.error fault, tx) => (.error fault, tx)
    | (.ok (), tx) => p.applyAll rest tx

/-- Ends a transaction whose calls came to `outcome` and whose producer came to `result`. -/
def Provider.conclude (p : Provider σ τ) (outcome : Except Fault Unit × τ)
    (result : Except Fault α) : Except Fault α × σ :=
  match outcome.1, result with
  | .error fault, _ => (.error fault, p.rollback outcome.2)
  | .ok (), .error fault => (.error fault, p.rollback outcome.2)
  | .ok (), .ok a =>
    match p.commit outcome.2 with
    | (.error fault, s) => (.error fault, s)
    | (.ok (), s) => (.ok a, s)

namespace Provider

variable (p : Provider σ τ)

theorem applyAll_of_ok {call : Call} {tx tx' : τ} (h : p.apply call tx = (.ok (), tx'))
    (rest : List Call) : p.applyAll (call :: rest) tx = p.applyAll rest tx' := by
  simp only [applyAll, h]

theorem applyAll_of_error {call : Call} {tx tx' : τ} {fault : Fault}
    (h : p.apply call tx = (.error fault, tx')) (rest : List Call) :
    p.applyAll (call :: rest) tx = (.error fault, tx') := by
  simp only [applyAll, h]

theorem applyAll_append_of_ok {done : List Call} {tx tx' : τ}
    (h : p.applyAll done tx = (.ok (), tx')) (rest : List Call) :
    p.applyAll (done ++ rest) tx = p.applyAll rest tx' := by
  induction done generalizing tx with
  | nil =>
    have he : tx = tx' := (Prod.mk.inj h).2
    rw [List.nil_append, he]
  | cons call done ih =>
    cases hc : p.apply call tx with
    | mk outcome next =>
      cases outcome with
      | error fault => simp [p.applyAll_of_error hc] at h
      | ok u =>
        rw [p.applyAll_of_ok hc] at h
        rw [List.cons_append, p.applyAll_of_ok hc]
        exact ih h

theorem applyAll_append_of_error {done : List Call} {tx tx' : τ} {fault : Fault}
    (h : p.applyAll done tx = (.error fault, tx')) (rest : List Call) :
    p.applyAll (done ++ rest) tx = (.error fault, tx') := by
  induction done generalizing tx with
  | nil => simp [applyAll] at h
  | cons call done ih =>
    cases hc : p.apply call tx with
    | mk outcome next =>
      cases outcome with
      | error f =>
        rw [p.applyAll_of_error hc] at h
        rw [List.cons_append, p.applyAll_of_error hc, h]
      | ok u =>
        rw [p.applyAll_of_ok hc] at h
        rw [List.cons_append, p.applyAll_of_ok hc]
        exact ih h

theorem ok_of_applyAll_append {done rest : List Call} {tx tx' : τ}
    (h : p.applyAll (done ++ rest) tx = (.ok (), tx')) :
    ∃ next, p.applyAll done tx = (.ok (), next) ∧ p.applyAll rest next = (.ok (), tx') := by
  cases hdone : p.applyAll done tx with
  | mk outcome next =>
    cases outcome with
    | error fault => simp [p.applyAll_append_of_error hdone] at h
    | ok u => exact ⟨next, rfl, (p.applyAll_append_of_ok hdone rest).symm.trans h⟩

theorem ok_of_applyAll_cons {call : Call} {rest : List Call} {tx tx' : τ}
    (h : p.applyAll (call :: rest) tx = (.ok (), tx')) :
    ∃ next, p.apply call tx = (.ok (), next) ∧ p.applyAll rest next = (.ok (), tx') := by
  cases hc : p.apply call tx with
  | mk outcome next =>
    cases outcome with
    | error fault => simp [p.applyAll_of_error hc] at h
    | ok u => exact ⟨next, rfl, (p.applyAll_of_ok hc rest).symm.trans h⟩

end Provider

namespace Queue

/-- The only sender has a slot: it is kept for him, or it is free. -/
def HasSlot (q : Queue Call) : Prop := q.reserved = [] ∧ 0 < q.free ∨ q.reserved = [0]

/-- The queue of one sender who does not wait in line. -/
structure Sole (q : Queue Call) : Prop where
  opened : q.closed = false
  line : q.line = []
  reserved : q.reserved = [] ∨ q.reserved = [0]

theorem ofCapacity_sole (capacity : Nat) : (ofCapacity capacity).Sole := ⟨rfl, rfl, .inl rfl⟩

theorem ofCapacity_hasSlot (capacity : Nat) : (ofCapacity capacity).HasSlot := by
  left
  refine ⟨rfl, ?_⟩
  change 0 < max capacity 1
  omega

theorem send_of_hasSlot (q : Queue Call) (call : Call) (hq : q.Sole) (hs : q.HasSlot) :
    ∃ q', q.send 0 call = (.accepted, q') ∧ q'.items = q.items ++ [call] ∧ q'.closed = false ∧
      q'.line = [] ∧ q'.reserved = [] := by
  rcases hs with ⟨hr, hf⟩ | hr
  · obtain ⟨free, hfree⟩ : ∃ free, q.free = free + 1 := ⟨q.free - 1, by omega⟩
    refine ⟨{ q with free := free }.push call, ?_, rfl, hq.opened, hq.line, hr⟩
    simp [send, hq.opened, hr, hq.line, hfree]
  · refine ⟨{ q with reserved := [] }.push call, ?_, rfl, hq.opened, hq.line, rfl⟩
    simp [send, hq.opened, hr]

theorem send_of_not_hasSlot (q : Queue Call) (call : Call) (hq : q.Sole) (hs : ¬ q.HasSlot) :
    q.send 0 call = (.waiting, { q with line := [0] }) ∧ q.reserved = [] := by
  have hr : q.reserved = [] := by
    rcases hq.reserved with hr | hr
    · exact hr
    · exact absurd (.inr hr) hs
  have hf : q.free = 0 := by
    by_contra hne
    exact hs (.inl ⟨hr, by omega⟩)
  exact ⟨by simp [send, hq.opened, hr, hq.line, hf], hr⟩

end Queue

/-- A producer sends until he is through or has to wait; with a slot he sends a call at least. -/
theorem Producer.advance_sole (artifact : String) (calls : List Call) (sent : Nat) (q : Queue Call)
    (hq : q.Sole) :
    ∃ done rest q', calls = done ++ rest ∧ q'.items = q.items ++ done ∧ q'.closed = false ∧
      (q.HasSlot → calls ≠ [] → done ≠ []) ∧
      (rest = [] ∧ advance artifact 0 calls sent q =
          (⟨[], sent + done.length, false, .ended (.ok (sent + done.length))⟩, q') ∨
        rest ≠ [] ∧ q'.line = [0] ∧ q'.reserved = [] ∧
          advance artifact 0 calls sent q = (⟨rest, sent + done.length, true, .running⟩, q')) := by
  induction calls generalizing sent q with
  | nil => exact ⟨[], [], q, rfl, by simp, hq.opened, by simp, .inl ⟨rfl, rfl⟩⟩
  | cons call calls ih =>
    by_cases hs : q.HasSlot
    · obtain ⟨q₁, hsend, hitems, hopen, hline, hres⟩ := q.send_of_hasSlot call hq hs
      obtain ⟨done, rest, q', hcalls, hitems', hopen', -, hend⟩ :=
        ih (sent + 1) q₁ ⟨hopen, hline, .inl hres⟩
      have hadv : advance artifact 0 (call :: calls) sent q =
          advance artifact 0 calls (sent + 1) q₁ := by rw [advance, hsend]
      have hn : sent + (call :: done).length = sent + 1 + done.length := by
        rw [List.length_cons]; omega
      refine ⟨call :: done, rest, q', by rw [hcalls]; rfl, ?_, hopen', by simp, ?_⟩
      · rw [hitems', hitems, List.append_assoc]; rfl
      · rw [hadv, hn]
        exact hend
    · obtain ⟨hsend, hres⟩ := q.send_of_not_hasSlot call hq hs
      refine ⟨[], call :: calls, { q with line := [0] }, rfl, by simp, hq.opened,
        fun h => absurd h hs, .inr ⟨by simp, rfl, hres, ?_⟩⟩
      rw [advance, hsend]
      rfl

namespace Run

variable (p : Provider σ τ)

/-- The worker has ended, and this is what the calls came to. -/
def EndsWith (r : Run τ) (outcome : Except Fault Unit × τ) : Prop :=
  r.target = outcome.2 ∧ ∃ result, r.worker = .ended result ∧ result.map (fun _ => ()) = outcome.1

theorem drain_of_nil (n : Nat) (r : Run τ) (h : r.queue.items = []) : drain p.apply n r = r := by
  cases n with
  | zero => rfl
  | succ n => simp [drain, carryOut?, Queue.take?, h]

/-- What is left of a run when all that was queued is carried out. -/
structure Drained (r r' : Run τ) : Prop where
  worker : r'.worker = .running
  producers : r'.producers = r.producers
  items : r'.queue.items = []
  opened : r'.queue.closed = false
  slot : r.queue.line = [0] ∧ r.queue.reserved = [] ∧ r.queue.items ≠ [] ∨
    r.queue.line = [] ∧ r.queue.reserved = [0] → r'.queue.line = [] ∧ r'.queue.reserved = [0]

theorem drain_items (calls : List Call) (r : Run τ) (hq : r.queue.items = calls)
    (hw : r.worker = .running) (ho : r.queue.closed = false) :
    ∃ r', drain p.apply calls.length r = r' ∧ r'.target = (p.applyAll calls r.target).2 ∧
      ((∃ fault, (p.applyAll calls r.target).1 = .error fault ∧
          r'.worker = .ended (.error fault)) ∨
        (p.applyAll calls r.target).1 = .ok () ∧ r.Drained r') := by
  -- Taking the first call gives its slot to the one who waits, so that the slot is there for the
  -- rest of the induction whether or not it was there before.
  induction calls generalizing r with
  | nil =>
    refine ⟨r, rfl, rfl, .inr ⟨rfl, hw, rfl, hq, ho, ?_⟩⟩
    rintro (⟨_, _, h⟩ | h)
    · exact absurd hq h
    · exact h
  | cons call calls ih =>
    let q := { r.queue with items := calls }.release
    have htake : r.queue.take? = some (call, q) := by simp [Queue.take?, hq, q]
    cases hc : p.apply call r.target with
    | mk outcome next =>
      cases outcome with
      | error fault =>
        refine ⟨{ r with queue := q.close, worker := .ended (.error fault), target := next },
          ?_, ?_, .inl ⟨fault, ?_, rfl⟩⟩
        · simp only [List.length_cons, drain, carryOut?, htake, Option.map_some, hc]
          exact drain_of_nil p _ _ rfl
        all_goals rw [p.applyAll_of_error hc]
      | ok u =>
        let r₁ : Run τ := { r with queue := q, applied := r.applied + 1, target := next }
        have hitems : q.items = calls := by
          simp only [q, Queue.release]
          split <;> rfl
        have hopen : q.closed = false := by
          simp only [q, Queue.release]
          split <;> exact ho
        obtain ⟨r', hdrain, htarget, hend⟩ := ih r₁ hitems hw hopen
        refine ⟨r', ?_, ?_, ?_⟩
        · simp only [List.length_cons, drain, carryOut?, htake, Option.map_some, hc]
          exact hdrain
        · rw [p.applyAll_of_ok hc]
          exact htarget
        rw [p.applyAll_of_ok hc]
        rcases hend with hfail | ⟨hok, hd⟩
        · exact .inl hfail
        · refine .inr ⟨hok, hd.worker, hd.producers, hd.items, hd.opened,
            fun h => hd.slot (.inr ?_)⟩
          rcases h with ⟨hl, hr, -⟩ | ⟨hl, hr⟩ <;> simp [r₁, q, Queue.release, hl, hr]

/-- Before a round: one producer with calls to send, who has a slot, and nothing queued. -/
structure Ready (r : Run τ) (calls : List Call) : Prop where
  producer : ∃ sent tried, r.producers = [⟨calls, sent, tried, .running⟩]
  worker : r.worker = .running
  sole : r.queue.Sole
  slot : r.queue.HasSlot
  drained : r.queue.items = []

theorem pollWorker_ends (r : Run τ) (hw : r.worker = .running) (ho : r.queue.closed = false)
    (h : (∃ fault, (p.applyAll r.queue.items r.target).1 = .error fault) ∨
      ∀ P ∈ r.producers, P.progress.isRunning = false) :
    (pollWorker p.apply r).EndsWith (p.applyAll r.queue.items r.target) := by
  obtain ⟨r', hdrain, htarget, hend⟩ := drain_items p r.queue.items r rfl hw ho
  rw [pollWorker, hdrain]
  rcases hend with ⟨fault, hfault, hworker⟩ | ⟨hok, hd⟩
  · rw [if_neg (by simp [hworker, Progress.isRunning])]
    exact ⟨htarget, _, hworker, hfault.symm⟩
  · have hall : ∀ P ∈ r'.producers, P.progress.isRunning = false := by
      rcases h with ⟨fault, hfault⟩ | h
      · simp [hok] at hfault
      · rwa [hd.producers]
    rw [if_pos ⟨by rw [hd.worker]; rfl, by simpa using hall⟩]
    exact ⟨htarget, _, rfl, hok.symm⟩

theorem pollWorker_drains (r : Run τ) (hw : r.worker = .running) (ho : r.queue.closed = false)
    (hok : (p.applyAll r.queue.items r.target).1 = .ok ())
    (h : ∃ P ∈ r.producers, P.progress.isRunning = true) :
    (pollWorker p.apply r).target = (p.applyAll r.queue.items r.target).2 ∧
      r.Drained (pollWorker p.apply r) := by
  obtain ⟨r', hdrain, htarget, hend⟩ := drain_items p r.queue.items r rfl hw ho
  rw [pollWorker, hdrain]
  rcases hend with ⟨fault, hfault, -⟩ | ⟨-, hd⟩
  · simp [hok] at hfault
  · have hsome : ¬ (r'.producers.all fun P => !P.progress.isRunning) := by
      rw [hd.producers]
      simpa using h
    rw [if_neg (fun h => hsome h.2)]
    exact ⟨htarget, hd⟩

/-- A round comes to an end, or carries out a call at least. -/
theorem round_of_ready (r : Run τ) (calls : List Call) (h : r.Ready calls) :
    (turns p.apply r.round r).EndsWith (p.applyAll calls r.target) ∨
    ∃ done rest, calls = done ++ rest ∧ done ≠ [] ∧
      p.applyAll done r.target = (.ok (), (turns p.apply r.round r).target) ∧
      (turns p.apply r.round r).Ready rest := by
  obtain ⟨⟨sent, tried, hp⟩, hw, hsole, hslot, hnil⟩ := h
  obtain ⟨done, rest, q, rfl, hitems, hopen, hsome, hend⟩ :=
    Producer.advance_sole r.artifact calls sent r.queue hsole
  rw [hnil, List.nil_append] at hitems
  obtain ⟨P, hadv⟩ : ∃ P, Producer.advance r.artifact 0 (done ++ rest) sent r.queue = (P, q) := by
    rcases hend with ⟨-, h⟩ | ⟨-, -, -, h⟩ <;> exact ⟨_, h⟩
  let r₁ : Run τ := { r with queue := q, producers := [P] }
  have hround : turns p.apply r.round r = pollWorker p.apply r₁ := by
    have hpoll : pollProducer 0 ⟨done ++ rest, sent, tried, .running⟩ r = r₁ := by
      simp [pollProducer, r₁, hadv, hp]
    simp [turns, round, hp, turn, Progress.isRunning, hpoll, r₁, hw]
  rw [hround]
  have hends := pollWorker_ends p r₁ hw hopen
  have hdrains := pollWorker_drains p r₁ hw hopen
  rw [show r₁.queue.items = done from hitems, show r₁.target = r.target from rfl] at hends hdrains
  cases ha : p.applyAll done r.target with
  | mk outcome tx =>
    rw [ha] at hends hdrains
    cases outcome with
    | error fault =>
      left
      rw [p.applyAll_append_of_error ha]
      exact hends (.inl ⟨fault, rfl⟩)
    | ok u =>
      rcases hend with ⟨rfl, hall⟩ | ⟨hrest, hline, hres, hwait⟩
      · left
        have hP : P.progress.isRunning = false := by
          rw [hadv] at hall
          rw [(Prod.mk.inj hall).1]
          rfl
        rw [p.applyAll_append_of_ok ha]
        exact hends (.inr (by simpa [r₁] using hP))
      · right
        rw [hadv] at hwait
        have hP : P = ⟨rest, sent + done.length, true, .running⟩ := (Prod.mk.inj hwait).1
        have hrun : P.progress.isRunning = true := by rw [hP]; rfl
        have hdone : done ≠ [] := hsome hslot (by simp [hrest])
        have hqueued : r₁.queue.items ≠ [] := by
          rw [show r₁.queue.items = done from hitems]
          exact hdone
        obtain ⟨htarget, hd⟩ := hdrains rfl ⟨P, by simp [r₁], hrun⟩
        obtain ⟨hl, hr⟩ := hd.slot (.inl ⟨hline, hres, hqueued⟩)
        have hproducers : (pollWorker p.apply r₁).producers =
            [⟨rest, sent + done.length, true, .running⟩] := by rw [hd.producers, ← hP]
        refine ⟨done, rest, rfl, hdone, ?_, ?_⟩
        · rw [htarget]
          exact ha
        · exact ⟨⟨_, _, hproducers⟩, hd.worker, ⟨hd.opened, hl, .inr hr⟩, .inr hr, hd.items⟩

/-- Rounds enough for every call bring the run to its end. -/
theorem rounds_of_ready (n : Nat) (r : Run τ) (calls : List Call) (h : r.Ready calls)
    (hn : calls.length < n) : (rounds p.apply n r).EndsWith (p.applyAll calls r.target) := by
  induction n generalizing r calls with
  | zero => omega
  | succ n ih =>
    have hstep : rounds p.apply (n + 1) r = rounds p.apply n (turns p.apply r.round r) := by
      simp [rounds, h.worker, Progress.isRunning]
    rw [hstep]
    rcases round_of_ready p r calls h with hend | ⟨done, rest, rfl, hdone, hok, hready⟩
    · obtain ⟨htarget, result, hworker, hresult⟩ := hend
      have hstay : rounds p.apply n (turns p.apply r.round r) = turns p.apply r.round r := by
        cases n with
        | zero => rfl
        | succ n => simp [rounds, hworker, Progress.isRunning]
      rw [hstay]
      exact ⟨htarget, result, hworker, hresult⟩
    · have hpos : 0 < done.length := List.length_pos_iff.2 hdone
      rw [List.length_append] at hn
      rw [p.applyAll_append_of_ok hok]
      exact ih _ rest hready (by omega)

theorem finish_endsWith (artifact : String) (capacity : Nat) (calls : List Call) (tx : τ) :
    ((start artifact capacity [calls] tx).finish p.apply).EndsWith (p.applyAll calls tx) := by
  have hready : (start artifact capacity [calls] tx).Ready calls :=
    ⟨⟨0, false, rfl⟩, rfl, Queue.ofCapacity_sole capacity, Queue.ofCapacity_hasSlot capacity, rfl⟩
  exact rounds_of_ready p _ _ calls hready (by simp [start, Producer.start])

end Run

/-- The capacity of the queue cannot be seen in what a session comes to. -/
theorem Provider.session_eq (p : Provider σ τ) (artifact : String) (capacity : Nat)
    (production : Production α) (s : σ) :
    p.session artifact capacity production s =
      match p.begin artifact s with
      | .error fault => (.error fault, s)
      | .ok tx => p.conclude (p.applyAll production.calls tx) production.result := by
  unfold session
  cases p.begin artifact s with
  | error fault => rfl
  | ok tx =>
    obtain ⟨htarget, result, hworker, hresult⟩ :=
      Run.finish_endsWith p artifact capacity production.calls tx
    simp only [Run.result, hworker, htarget, conclude, ← hresult]
    cases result with
    | error fault => rfl
    | ok n => cases production.result <;> rfl

end CrossRef.Feed
