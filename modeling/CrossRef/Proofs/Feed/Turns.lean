import CrossRef.Proofs.Feed.Concurrent

namespace CrossRef.Feed

variable {σ τ α : Type}

/-- The call that a producer tries to send. -/
def Producer.trying? (P : Producer) : Option Call :=
  if P.progress.isRunning ∧ P.tried then P.pending.head? else none

theorem Producer.trying?_of_ended {P : Producer} (h : P.progress.isRunning = false) :
    P.trying? = none := by
  simp [trying?, h]

namespace Session

/-- The session is where the run is, and its task goes on. -/
structure Follows (r : Run τ) (x : Session τ α) : Prop where
  queue : x.queue = r.queue
  target : x.target = r.target
  worker : x.worker = r.worker
  applied : r.worker = .running → x.applied.length = r.applied
  sending : ∀ i, x.sending i = (r.producers[i]?).bind Producer.trying?
  handles : x.handles = r.producers.countP fun P => P.progress.isRunning
  task : x.task = none

variable {p : Provider σ τ} {artifact : String} {capacity : Nat} {s : σ}

theorem reaches_handles {tx : τ} (hb : p.begin artifact s = .ok tx) (n : Nat) :
    Reaches p artifact capacity s { (start capacity tx : Session τ α) with handles := n } := by
  cases n with
  | zero => exact .step (.start hb) (.drop (by simp [start]) fun _ _ => rfl)
  | succ n =>
    induction n with
    | zero => exact .start hb
    | succ n ih => exact .step ih (.clone (by simp))

/-- A producer's turn is a row of sendings. -/
theorem reaches_advance (name : String) (i : Nat) (calls : List Call) (sent : Nat) (x : Session τ α)
    (hx : Reaches p artifact capacity s x) (hh : 0 < x.handles)
    (hs : x.sending i = none ∨ x.sending i = calls.head?) :
    ∃ y : Session τ α, Reaches p artifact capacity s y ∧
      y = { x with
        queue := (Producer.advance name i calls sent x.queue).2
        sending := Function.update x.sending i
          (Producer.advance name i calls sent x.queue).1.trying?
        accepted := y.accepted } := by
  induction calls generalizing sent x with
  | nil =>
    have hnone : x.sending i = none := by
      rcases hs with hs | hs
      · exact hs
      · rw [hs]; rfl
    refine ⟨x, hx, ?_⟩
    have hself : Function.update x.sending i none = x.sending := by
      rw [← hnone, Function.update_eq_self]
    simp only [Producer.advance, Producer.trying?, Progress.isRunning, Bool.false_eq_true,
      false_and, if_false, hself]
  | cons call calls ih =>
    obtain ⟨x₁, hx₁, he₁⟩ : ∃ x₁ : Session τ α, Reaches p artifact capacity s x₁ ∧
        x₁ = { x with sending := Function.update x.sending i (some call) } := by
      rcases hs with hs | hs
      · exact ⟨_, .step hx (.submit i call hh hs), rfl⟩
      · refine ⟨x, hx, ?_⟩
        have hself : Function.update x.sending i (some call) = x.sending := by
          rw [← List.head?_cons, ← hs, Function.update_eq_self]
        rw [hself]
    have hsend : x₁.sending i = some call := by rw [he₁]; simp
    have hpoll := Reaches.step hx₁ (.poll hsend)
    subst he₁
    cases hq : x.queue.send i call with
    | mk outcome q =>
      simp only [poll, hq] at hpoll
      cases outcome with
      | accepted =>
        simp only [Function.update_idem] at hpoll
        obtain ⟨y, hy, he⟩ := ih (sent + 1) _ hpoll hh (.inl (by simp))
        refine ⟨y, hy, ?_⟩
        rw [he]
        simp [Producer.advance, hq]
      | waiting =>
        refine ⟨_, hpoll, ?_⟩
        simp [Producer.advance, hq, Producer.trying?, Progress.isRunning]
      | refused =>
        refine ⟨_, hpoll, ?_⟩
        simp [Producer.advance, hq, Producer.trying?, Progress.isRunning]

theorem follows_set {r : Run τ} {x y : Session τ α} (hf : Follows r x) {i : Nat} {P : Producer}
    (P' : Producer) (q : Queue Call) (hP : r.producers[i]? = some P)
    (hrun : P.progress.isRunning = true) (hy : Reaches p artifact capacity s y)
    (he : y = { x with
      queue := q
      sending := Function.update x.sending i P'.trying?
      accepted := y.accepted }) :
    ∃ z : Session τ α, Reaches p artifact capacity s z ∧
      Follows { r with queue := q, producers := r.producers.set i P' } z := by
  obtain ⟨hlt, hget⟩ := List.getElem?_eq_some_iff.1 hP
  have hpos : 0 < r.producers.countP fun P => P.progress.isRunning :=
    List.countP_pos_iff.2 ⟨P, List.mem_of_getElem? hP, hrun⟩
  have hsending : ∀ j, y.sending j = ((r.producers.set i P')[j]?).bind Producer.trying? := by
    intro j
    rw [he]
    by_cases hj : j = i
    · subst hj
      simp [hlt]
    · simp [hj, Ne.symm hj, hf.sending]
  have hcount : (r.producers.set i P').countP (fun P => P.progress.isRunning) =
      x.handles - 1 + if P'.progress.isRunning then 1 else 0 := by
    rw [List.countP_set hlt, hget, hrun, hf.handles]
    rfl
  rw [← hf.handles] at hpos
  have hhandles : y.handles = x.handles := by rw [he]
  have happlied : y.applied = x.applied := by rw [he]
  have hworker : y.worker = r.worker := by rw [he]; exact hf.worker
  have htarget : y.target = r.target := by rw [he]; exact hf.target
  have htask : y.task = none := by rw [he]; exact hf.task
  have hqueue : y.queue = q := by rw [he]
  by_cases hend : P'.progress.isRunning = true
  · rw [if_pos hend] at hcount
    refine ⟨y, hy, hqueue, htarget, hworker, ?_, hsending, ?_, htask⟩
    · intro h
      rw [happlied]
      exact hf.applied h
    · rw [hhandles]
      change _ = (r.producers.set i P').countP _
      omega
  · rw [if_neg hend] at hcount
    refine ⟨{ y with handles := y.handles - 1 }, .step hy (.drop (by omega) ?_), hqueue, htarget,
      hworker, ?_, hsending, ?_, htask⟩
    · intro hone j
      have hzero : (r.producers.set i P').countP (fun P => P.progress.isRunning) = 0 := by omega
      rw [hsending]
      cases hj : (r.producers.set i P')[j]? with
      | none => rfl
      | some Q =>
        have hQ := List.countP_eq_zero.1 hzero Q (List.mem_of_getElem? hj)
        exact Producer.trying?_of_ended (by simpa using hQ)
    · intro h
      change y.applied.length = _
      rw [happlied]
      exact hf.applied h
    · change y.handles - 1 = (r.producers.set i P').countP _
      omega

theorem follows_pollProducer {r : Run τ} {x : Session τ α} (hx : Reaches p artifact capacity s x)
    (hf : Follows r x) {i : Nat} {P : Producer} (hP : r.producers[i]? = some P)
    (hrun : P.progress.isRunning = true) :
    ∃ y : Session τ α, Reaches p artifact capacity s y ∧ Follows (Run.pollProducer i P r) y := by
  have hpos : 0 < x.handles := by
    rw [hf.handles]
    exact List.countP_pos_iff.2 ⟨P, List.mem_of_getElem? hP, hrun⟩
  have hsend : x.sending i = none ∨ x.sending i = P.pending.head? := by
    rw [hf.sending, hP]
    by_cases ht : P.tried
    · right
      simp [Producer.trying?, hrun, ht]
    · left
      simp [Producer.trying?, ht]
  obtain ⟨y, hy, he⟩ := reaches_advance r.artifact i P.pending P.sent x hx hpos hsend
  rw [hf.queue] at he
  exact follows_set hf _ _ hP hrun hy he

theorem follows_cancelProducer {r : Run τ} {x : Session τ α}
    (hx : Reaches p artifact capacity s x) (hf : Follows r x) {i : Nat} {P : Producer}
    (hP : r.producers[i]? = some P) (hrun : P.progress.isRunning = true) :
    ∃ y : Session τ α, Reaches p artifact capacity s y ∧ Follows (Run.cancelProducer i P r) y := by
  refine follows_set hf { P with progress := .cancelled } (r.queue.withdraw i) hP hrun
    (.step hx (.abandon i)) ?_
  rw [hf.queue, Producer.trying?_of_ended rfl]

theorem follows_drain (n : Nat) (r : Run τ) (x : Session τ α)
    (hx : Reaches p artifact capacity s x) (hf : Follows r x)
    (hw : r.worker = .running ∨ r.queue.items = []) :
    ∃ y : Session τ α, Reaches p artifact capacity s y ∧ Follows (Run.drain p.apply n r) y := by
  induction n generalizing r x with
  | zero => exact ⟨x, hx, hf⟩
  | succ n ih =>
    cases htake : r.queue.take? with
    | none =>
      refine ⟨x, hx, ?_⟩
      simpa only [Run.drain, Run.carryOut?, htake, Option.map_none] using hf
    | some taken =>
      obtain ⟨call, q⟩ := taken
      have hrun : r.worker = .running := by
        rcases hw with hw | hnil
        · exact hw
        · simp [Queue.take?, hnil] at htake
      have hstep := Reaches.step hx
        (.work (hf.worker.trans hrun) (by rw [hf.queue]; exact htake))
      simp only [Session.work, hf.target] at hstep
      simp only [Run.drain, Run.carryOut?, htake, Option.map_some]
      cases ha : p.apply call r.target with
      | mk outcome next =>
        rw [ha] at hstep
        cases outcome with
        | error fault =>
          exact ih _ _ hstep ⟨rfl, rfl, rfl, fun h => by simp at h, hf.sending, hf.handles, hf.task⟩
            (.inr rfl)
        | ok u =>
          have happlied : (x.applied ++ [call]).length = r.applied + 1 := by
            rw [List.length_append, hf.applied hrun]
            rfl
          exact ih _ _ hstep
            ⟨rfl, rfl, hf.worker, fun _ => happlied, hf.sending, hf.handles, hf.task⟩ (.inl hrun)

theorem items_drain (n : Nat) (r : Run τ) (h : r.queue.items.length ≤ n) :
    (Run.drain p.apply n r).queue.items = [] := by
  induction n generalizing r with
  | zero => exact List.length_eq_zero_iff.1 (Nat.le_zero.1 h)
  | succ n ih =>
    cases htake : r.queue.take? with
    | none =>
      have hnil : r.queue.items = [] := by
        unfold Queue.take? at htake
        split at htake
        · assumption
        · simp at htake
      simpa only [Run.drain, Run.carryOut?, htake, Option.map_none] using hnil
    | some taken =>
      obtain ⟨call, q⟩ := taken
      have hitems := (Queue.take?_eq_some htake).1
      have hlen : q.items.length ≤ n := by
        rw [hitems, List.length_cons] at h
        omega
      simp only [Run.drain, Run.carryOut?, htake, Option.map_some]
      cases p.apply call r.target with
      | mk outcome next =>
        cases outcome with
        | error fault => exact ih _ (by simp [Queue.close])
        | ok u => exact ih _ hlen

theorem follows_pollWorker {r : Run τ} {x : Session τ α} (hx : Reaches p artifact capacity s x)
    (hf : Follows r x) (hw : r.worker = .running) :
    ∃ y : Session τ α, Reaches p artifact capacity s y ∧ Follows (Run.pollWorker p.apply r) y := by
  obtain ⟨y, hy, hfy⟩ := follows_drain r.queue.items.length r x hx hf (.inl hw)
  have hitems := items_drain (p := p) r.queue.items.length r le_rfl
  unfold Run.pollWorker
  simp only
  split
  case isTrue h =>
    obtain ⟨hrun, hall⟩ := h
    have hworker : (Run.drain p.apply r.queue.items.length r).worker = .running := by
      cases hd : (Run.drain p.apply r.queue.items.length r).worker with
      | running => rfl
      | ended result => simp [hd, Progress.isRunning] at hrun
      | cancelled => simp [hd, Progress.isRunning] at hrun
    have hzero : y.handles = 0 := by
      rw [hfy.handles]
      exact List.countP_eq_zero.2 (by simpa using hall)
    refine ⟨_, .step hy (.rest (hfy.worker.trans hworker) (by rw [hfy.queue]; exact hitems) hzero),
      hfy.queue, hfy.target, ?_, fun h => by simp at h, hfy.sending, hfy.handles, hfy.task⟩
    rw [hfy.applied hworker]
  case isFalse => exact ⟨y, hy, hfy⟩

theorem follows_turn (t : Turn) {r : Run τ} {x : Session τ α} (hx : Reaches p artifact capacity s x)
    (hf : Follows r x) :
    ∃ y : Session τ α, Reaches p artifact capacity s y ∧ Follows (Run.turn p.apply t r).2 y := by
  have hstay : ∃ y : Session τ α, Reaches p artifact capacity s y ∧ Follows r y := ⟨x, hx, hf⟩
  cases t with
  | producer i =>
    simp only [Run.turn]
    split
    case h_1 P hP =>
      split
      case isTrue hrun => exact follows_pollProducer hx hf hP hrun
      case isFalse => exact hstay
    case h_2 => exact hstay
  | worker =>
    simp only [Run.turn]
    split
    case isTrue hrun =>
      cases hw : r.worker with
      | running => exact follows_pollWorker hx hf hw
      | ended result => simp [hw, Progress.isRunning] at hrun
      | cancelled => simp [hw, Progress.isRunning] at hrun
    case isFalse => exact hstay
  | cancelProducer i =>
    simp only [Run.turn]
    split
    case h_1 P hP =>
      split
      case isTrue hrun => exact follows_cancelProducer hx hf hP hrun
      case isFalse => exact hstay
    case h_2 => exact hstay
  | cancelWorker =>
    simp only [Run.turn]
    split
    case isTrue =>
      refine ⟨_, .step hx (.cancel (.inl hf.task)), ?_, hf.target, rfl, fun h => by simp at h,
        hf.sending, hf.handles, hf.task⟩
      simp only [hf.queue]
    case isFalse => exact hstay

theorem follows_turns (ts : List Turn) {r : Run τ} {x : Session τ α}
    (hx : Reaches p artifact capacity s x) (hf : Follows r x) :
    ∃ y : Session τ α, Reaches p artifact capacity s y ∧ Follows (Run.turns p.apply ts r) y := by
  induction ts generalizing r x with
  | nil => exact ⟨x, hx, hf⟩
  | cons t ts ih =>
    obtain ⟨y, hy, hfy⟩ := follows_turn t hx hf
    exact ih hy hfy

theorem follows_start (capacity : Nat) (producers : List (List Call)) {tx : τ}
    (hb : p.begin artifact s = .ok tx) :
    ∃ x : Session τ α, Reaches p artifact capacity s x ∧
      Follows (Run.start artifact capacity producers tx) x := by
  refine ⟨_, reaches_handles hb producers.length, rfl, rfl, rfl, fun _ => rfl, ?_, ?_, rfl⟩
  · intro i
    change none = ((producers.map Producer.start)[i]?).bind Producer.trying?
    cases hi : producers[i]? <;> simp [hi, Producer.trying?, Producer.start]
  · change producers.length = (producers.map Producer.start).countP _
    rw [List.countP_map]
    exact (List.countP_eq_length.2 fun _ _ => rfl).symm

/-- Whatever the order of the turns, a run is where a session may be. -/
theorem follows_run (p : Provider σ τ) (artifact : String) (capacity : Nat)
    (producers : List (List Call)) (s : σ) {tx : τ} (hb : p.begin artifact s = .ok tx)
    (ts : List Turn) :
    ∃ x : Session τ α, Reaches p artifact capacity s x ∧
      Follows (Run.turns p.apply ts (Run.start artifact capacity producers tx)) x := by
  obtain ⟨x, hx, hf⟩ := follows_start (α := α) capacity producers hb
  exact follows_turns ts hx hf

end Session

namespace Run

theorem rounds_turns (apply : Call → τ → Except Fault Unit × τ) (n : Nat) (r : Run τ) :
    ∃ ts, rounds apply n r = turns apply ts r := by
  induction n generalizing r with
  | zero => exact ⟨[], rfl⟩
  | succ n ih =>
    rw [rounds]
    split
    · obtain ⟨ts, hts⟩ := ih (turns apply r.round r)
      refine ⟨r.round ++ ts, ?_⟩
      rw [hts, turns, turns, turns, List.foldl_append]
    · exact ⟨[], rfl⟩

end Run

/-- A session with one producer is a concurrent session at its end. -/
theorem Provider.session_ending (p : Provider σ τ) (artifact : String) (capacity : Nat)
    (production : Production α) (s : σ) {tx : τ} (hb : p.begin artifact s = .ok tx) :
    ∃ (x : Session τ α) (e : Ending σ α), Session.Reaches p artifact capacity s x ∧
      x.ending? p artifact = some e ∧
      e.result = some (p.session artifact capacity production s).1 ∧
      e.left = (p.session artifact capacity production s).2 := by
  let r := Run.start artifact capacity [production.calls] tx
  obtain ⟨-, result, hworker, -⟩ := Run.finish_endsWith p artifact capacity production.calls tx
  obtain ⟨ts, hts⟩ : ∃ ts, r.finish p.apply = Run.turns p.apply ts r := Run.rounds_turns p.apply _ r
  obtain ⟨x, hx, hf⟩ := Session.follows_run (α := α) p artifact capacity [production.calls] s hb ts
  rw [show Run.start artifact capacity [production.calls] tx = r from rfl, ← hts] at hf
  have hw : x.worker = .ended result := hf.worker.trans hworker
  have hr : (r.finish p.apply).worker = .ended result := hworker
  have ht : x.target = (r.finish p.apply).target := hf.target
  have hx' := Session.Reaches.step hx (.finish production.result hf.task)
  cases result with
  | error fault =>
    refine ⟨_, _, hx', by simp only [Session.ending?, hw]; rfl, ?_, ?_⟩
    all_goals simp [session, hb, Run.result, r, hr, ht]
  | ok n =>
    cases hp : production.result with
    | error fault =>
      rw [hp] at hx'
      refine ⟨_, _, hx', by simp only [Session.ending?, hw]; rfl, ?_, ?_⟩
      all_goals simp [session, hb, Run.result, r, hr, ht, hp]
    | ok a =>
      rw [hp] at hx'
      refine ⟨_, _, hx', by simp only [Session.ending?, hw]; rfl, ?_, ?_⟩
      all_goals
        simp only [session, hb, Run.result, r, hr, ht, hp]
        split <;> simp_all [Except.map]

end CrossRef.Feed
