import MyFileServer.Net.ConnectionLifecycle

/-!
# Who holds a connection

A `TcpConnection` lives as long as a `TcpConnectionPtr` to it exists, in
`connections_` or bound into a functor that waits in some loop, while the
poller of its loop knows the channel inside it by a plain pointer.
-/

namespace MyFileServer

open Execution

/-- In these phases the connection is neither in the map nor in a functor that
moves it. -/
def Phase.isOver : Phase → Bool
  | .unborn | .destroyed => true
  | .opening | .opened | .down | .closed | .erased => false

namespace TcpServer

/-- A `TcpConnectionPtr` to the connection exists. -/
def Held (s : TcpServer) (id : ℕ) : Prop :=
  (∃ name, s.connections_ name = some id) ∨
    ∃ loop, ∃ functor ∈ s.pendingFunctors_ loop, functor.subject = id

/-- What is promised of every connection. -/
structure Registered (s : TcpServer) : Prop where
  /-- `connections_` has the connections that were made and not erased, each under
  its own name, -/
  registry : ∀ name id, s.connections_ name = some id ↔
    id < s.made ∧ .erased id ∉ s.history ∧ name = (s.objects id).name_
  /-- which no other connection has. -/
  distinct : ∀ id other, id < s.made → other < s.made →
    (s.objects id).name_ = (s.objects other).name_ → id = other
  /-- A channel that the poller has a pointer to is there. -/
  held : ∀ id, (s.objects id).index_ ≠ .kNew → s.Held id
  /-- A connection that is gone has had all of its life, -/
  released : ∀ id < s.made, ¬ s.Held id → s.history.filter (·.subject = id) = lifeCycle id
  /-- and a connection that has had all of its life is gone, but for callbacks
  that are still to run. -/
  lasts : ∀ id < s.made, s.history.filter (·.subject = id) = lifeCycle id →
    (s.Held id ↔ ∃ loop, .callback id ∈ s.pendingFunctors_ loop)

section

variable {s : TcpServer} {id : ℕ} {phase : Phase}

theorem Rests.mem_names_iff (hs : Rests s id phase) (name : Bytes) :
    s.connections_ name = some id ↔ phase.mapped = true ∧ name = (s.objects id).name_ := by
  have hnames := hs.names_eq
  change {name | s.connections_ name = some id} = _ at hnames
  change name ∈ {name | s.connections_ name = some id} ↔ _
  rw [hnames]
  cases hmapped : phase.mapped with
  | true =>
      simp only [if_true, Set.mem_singleton_iff, true_and]
      rfl
  | false => simp

theorem Rests.mem_history_iff (hs : Rests s id phase) (event : LifeEvent)
    (hevent : event.subject = id) : event ∈ s.history ↔ event ∈ phase.history id := by
  have hhistory : s.history.filter (·.subject = id) = phase.history id := hs.history_eq
  rw [← hhistory, List.mem_filter]
  simp [hevent]

theorem erased_mem_iff (phase : Phase) (hborn : phase ≠ .unborn) (id : ℕ) :
    .erased id ∈ phase.history id ↔ phase.mapped = false := by
  cases phase <;> simp_all [Phase.history, Phase.mapped]

theorem history_eq_lifeCycle_iff (phase : Phase) (id : ℕ) :
    phase.history id = lifeCycle id ↔ phase = .destroyed := by
  cases phase <;> simp [Phase.history, lifeCycle]

/-- What moves the connection waits for it. -/
theorem Rests.pending_iff (hs : Rests s id phase) (loop : ℕ) (functor : LoopFunctor) :
    functor ∈ s.pendingFunctors_ loop ∧ functor.moves id = true ↔
      functor ∈ phase.waiting id (s.objects id).loop_ loop := by
  have hpending := congrFun hs.pending_eq loop
  change (s.pendingFunctors_ loop).filter (LoopFunctor.moves id) = _ at hpending
  rw [← hpending, List.mem_filter]

theorem subject_cases (functor : LoopFunctor) :
    functor.subject = id ↔ functor.moves id = true ∨ functor = .callback id := by
  cases functor <;> simp [LoopFunctor.subject, LoopFunctor.moves]

/-- The erased connection is held by the functor that is to destroy it. -/
theorem Rests.held_iff (hs : Rests s id phase) :
    s.Held id ↔ phase.isOver = false ∨ ∃ loop, .callback id ∈ s.pendingFunctors_ loop := by
  constructor
  · rintro (⟨name, hname⟩ | ⟨loop, functor, hfunctor, hsubject⟩)
    · left
      have hmapped := ((hs.mem_names_iff name).mp hname).1
      cases phase <;> simp_all [Phase.mapped, Phase.isOver]
    · rcases subject_cases functor |>.mp hsubject with hmoves | rfl
      · left
        have hwaiting := (hs.pending_iff loop functor).mp ⟨hfunctor, hmoves⟩
        rcases Phase.mem_waiting hwaiting with ⟨_, rfl⟩ | ⟨_, rfl⟩ | ⟨_, rfl⟩ <;> rfl
      · exact .inr ⟨loop, hfunctor⟩
  · rintro (hover | ⟨loop, hcallback⟩)
    · by_cases hmapped : phase.mapped = true
      · exact .inl ⟨_, (hs.mem_names_iff _).mpr ⟨hmapped, rfl⟩⟩
      · have herased : phase = .erased := by
          cases phase <;> simp_all [Phase.mapped, Phase.isOver]
        subst herased
        have hwaits : LoopFunctor.connectDestroyed id ∈
            Phase.erased.waiting id (s.objects id).loop_ (s.objects id).loop_ := by
          simp [Phase.waiting]
        obtain ⟨hfunctor, _⟩ := (hs.pending_iff _ _).mpr hwaits
        exact .inr ⟨_, _, hfunctor, rfl⟩
    · exact .inr ⟨loop, _, hcallback, rfl⟩

theorem Lives.registered {n : ℕ} (hs : Lives n s) : Registered s := by
  constructor
  case registry =>
    intro name id
    obtain ⟨phase, hborn, hrests⟩ := hs.rests id
    rw [hrests.mem_names_iff]
    constructor
    · rintro ⟨hmapped, hname⟩
      have hlive : phase ≠ .unborn := by
        rintro rfl
        cases hmapped
      refine ⟨not_le.mp (mt hborn.mpr hlive), ?_, hname⟩
      rw [hrests.mem_history_iff _ rfl, erased_mem_iff phase hlive, hmapped]
      decide
    · rintro ⟨hlt, hpresent, hname⟩
      have hlive : phase ≠ .unborn := mt hborn.mp (not_le.mpr hlt)
      rw [hrests.mem_history_iff _ rfl, erased_mem_iff phase hlive, Bool.not_eq_false]
        at hpresent
      exact ⟨hpresent, hname⟩
  case distinct =>
    intro id other hid hother hname
    have hbudget := hs.budget
    rw [hs.names id hid, hs.names other hother] at hname
    have hsame := connName_injective hs.ipPort (by omega) (by omega) hname
    omega
  case held =>
    intro id hindex
    obtain ⟨phase, _, hrests⟩ := hs.rests id
    refine hrests.held_iff.mpr (.inl ?_)
    have hholds : phase.Holds (s.objects id) := hrests.holds
    cases phase with
    | unborn | destroyed => exact absurd hholds.2.1 hindex
    | opening | opened | down | closed | erased => rfl
  case released =>
    intro id hlt hfree
    obtain ⟨phase, hborn, hrests⟩ := hs.rests id
    have hlive : phase ≠ .unborn := mt hborn.mp (not_le.mpr hlt)
    have hover : phase.isOver ≠ false := fun hnot => hfree (hrests.held_iff.mpr (.inl hnot))
    have hdestroyed : phase = .destroyed := by
      cases phase <;> simp_all [Phase.isOver]
    exact hrests.history_eq.trans ((history_eq_lifeCycle_iff phase id).mpr hdestroyed)
  case lasts =>
    intro id _ hlife
    obtain ⟨phase, _, hrests⟩ := hs.rests id
    have hhistory : phase.history id = lifeCycle id := hrests.history_eq.symm.trans hlife
    have hdestroyed := (history_eq_lifeCycle_iff phase id).mp hhistory
    rw [hrests.held_iff, hdestroyed]
    simp [Phase.isOver]

end

/-- In every state of every run. -/
theorem registered_of_run (listenAddr : InetAddress) (nameArg : Bytes) (complete : Bool)
    (numLoops : ℕ) {inputs : List ServerInput} (hcount : (inputs.map ServerInput.cost).sum < 2 ^ 31)
    (hcloses : ∀ input ∈ inputs, input.ClosesOnce) {final : TcpServer} {calls}
    (hrun : run step (initial listenAddr nameArg complete numLoops) inputs = .ok (final, calls)) :
    Registered final ∧ ∀ call ∈ calls, Registered call.pre := by
  have hstep : ∀ n s (input : ServerInput), input.ClosesOnce → Lives (input.cost + n) s →
      Ends (fun _ => True) (fun r => Lives n r.1) (s.step input) :=
    fun n s input hinput hs => step_lives s input hinput hs
  have hends := Ends.run_budget hstep hcloses
    (lives_initial listenAddr nameArg complete numLoops hcount)
  obtain ⟨hfinal, hcalls⟩ := hends.of_eq_ok hrun
  refine ⟨hfinal.registered, fun call hcall => ?_⟩
  obtain ⟨n, hn⟩ := hcalls call hcall
  exact hn.registered

/-- Two connections; the first one is closed and waits to be destroyed. -/
def closedOfTwo : List ServerInput :=
  [.newConnection [], .functor 1 [], .newConnection [],
    .event 0 { revents := EPOLLIN, read := .eof, written := .wrote 0 }, .functor 0 []]

theorem registered_of_run_closedOfTwo :
    ∃ final calls,
      run step (initial inaddrAny (ascii "HttpServer") false 1) closedOfTwo = .ok (final, calls) ∧
      final.Held 0 ∧ (final.objects 0).index_ = .kDeleted ∧ Registered final ∧
      ∀ call ∈ calls, Registered call.pre := by
  have hrun : ∃ final calls,
      run step (initial inaddrAny (ascii "HttpServer") false 1) closedOfTwo = .ok (final, calls) ∧
      (final.objects 0).index_ = .kDeleted := ⟨_, _, rfl, rfl⟩
  obtain ⟨final, calls, hrun, hindex⟩ := hrun
  have hcloses : ∀ input ∈ closedOfTwo, input.ClosesOnce := by
    intro input hinput
    fin_cases hinput
    · trivial
    · trivial
    · trivial
    · exact fun habsurd => absurd habsurd (by decide)
    · trivial
  have hregistered :=
    registered_of_run inaddrAny (ascii "HttpServer") false 1 (by decide) hcloses hrun
  exact ⟨final, calls, hrun, hregistered.1.held 0 (by rw [hindex]; decide), hindex, hregistered⟩

end TcpServer

end MyFileServer
