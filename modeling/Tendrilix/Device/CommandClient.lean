import Tendrilix.Device.Model

/-!
# The command client

The calls of all clients share one channel behind a mutex. A command goes to the device in one
mailbox and its completion comes back in another. Both mailboxes hold one message and a new message
replaces it, so what a call reads is the completion of its own command only if the device is not
still busy with the command of a call that was dropped.
-/

namespace Tendrilix.Device

open Noise

namespace CommandClient

variable {K : Crypto} {N BYTES : ℕ}

/-- A command and the number of the call that submits it. The mailboxes carry the command alone; the
number says in statements which call it belongs to. -/
structure Request where
  call : ℕ
  command : Command
  deriving DecidableEq

structure Completed where
  request : Request
  completion : CommandCompletion
  deriving DecidableEq

/-- What the methods of the client return when the channel returns `completion`. -/
def answer (command : Command) (completion : CommandCompletion) : CommandCompletion :=
  match command, completion with
  | _, .error e => .error e
  | .get _, .ok (.peerInfo info) => .ok (.peerInfo info)
  | .get _, .ok _ => .error .io
  | .list, .ok (.peerKeys keys) => .ok (.peerKeys keys)
  | .list, .ok _ => .error .io
  | _, .ok _ => .ok .none

/-- How far `execute` has come since it took the lock. -/
inductive Stage
  | locked
  | discarded
  | submitted
  deriving DecidableEq

structure Execution where
  request : Request
  stage : Stage

structure State (K : Crypto) (N BYTES : ℕ) where
  device : Device K N BYTES
  handling : Option Request := none
  submissions : Option Request := none
  completions : Option Completed := none
  /-- The calls that wait for the lock. -/
  waiting : List Request := []
  /-- The call that holds the lock. -/
  channel : Option Execution := none
  nextCall : ℕ := 0
  executed : List Completed := []
  returned : List Completed := []

inductive Action
  | call (command : Command)
  | lock (call : ℕ)
  | discardCurrent
  | submit
  | waitNext
  | abandon (call : ℕ)
  | receiveCommand
  | handlePeerUpdate
  | event (e : Event)

/-- One step of a task or of the device. An action that is not possible leaves the state as it is. -/
def step (s : State K N BYTES) : Action → Call (Unit × State K N BYTES)
  | .call command =>
    .ok ((), { s with waiting := s.waiting ++ [⟨s.nextCall, command⟩], nextCall := s.nextCall + 1 })
  | .lock call =>
    match s.channel, s.waiting.find? (·.call = call) with
    | none, some request =>
      .ok ((), { s with
        channel := some ⟨request, .locked⟩
        waiting := s.waiting.filter (·.call ≠ call) })
    | _, _ => .ok ((), s)
  | .discardCurrent =>
    match s.channel with
    | some ⟨request, .locked⟩ =>
      .ok ((), { s with channel := some ⟨request, .discarded⟩, completions := none })
    | _ => .ok ((), s)
  | .submit =>
    match s.channel with
    | some ⟨request, .discarded⟩ =>
      .ok ((), { s with channel := some ⟨request, .submitted⟩, submissions := some request })
    | _ => .ok ((), s)
  | .waitNext =>
    match s.channel, s.completions with
    | some ⟨request, .submitted⟩, some completed =>
      .ok ((), { s with
        channel := none
        completions := none
        returned := s.returned ++ [⟨request, answer request.command completed.completion⟩] })
    | _, _ => .ok ((), s)
  | .abandon call =>
    .ok ((), { s with
      waiting := s.waiting.filter (·.call ≠ call)
      channel := s.channel.filter (·.request.call ≠ call) })
  | .receiveCommand =>
    match s.handling, s.submissions with
    | none, some request => .ok ((), { s with handling := some request, submissions := none })
    | _, _ => .ok ((), s)
  | .handlePeerUpdate =>
    match s.handling with
    | none => .ok ((), s)
    | some request => do
      let (completion, device) ← s.device.handlePeerUpdate request.command
      return ((), { s with
        device := device
        handling := none
        completions := some ⟨request, completion⟩
        executed := s.executed ++ [⟨request, completion⟩] })
  | .event e =>
    match s.handling, e with
    | some _, _ => .ok ((), s)
    | none, .command _ => .ok ((), s)
    | none, e => do
      let (_, device) ← s.device.step e
      return ((), { s with device := device })

/-- Every call that returned got the completion of its own command, which ran exactly once. -/
def Served (s : State K N BYTES) : Prop :=
  ∀ r ∈ s.returned, s.executed.filter (·.request.call = r.request.call) = [r]

/-- The device does not finish the command of one call while another call waits for its own. -/
def Undisturbed (s : State K N BYTES) : Action → Prop
  | .handlePeerUpdate =>
    ∀ request ∈ s.handling, ∀ execution ∈ s.channel,
      execution.stage ≠ .locked → execution.request.call = request.call
  | _ => True

instance (s : State K N BYTES) : Decidable (Served s) :=
  inferInstanceAs (Decidable (∀ r ∈ s.returned, _))

instance (s : State K N BYTES) : (a : Action) → Decidable (Undisturbed s a)
  | .handlePeerUpdate => inferInstanceAs (Decidable (∀ request ∈ s.handling, _))
  | .call _ | .lock _ | .discardCurrent | .submit | .waitNext | .abandon _ | .receiveCommand
  | .event _ => isTrue trivial

/-! ### Each call is in one place -/

def places (s : State K N BYTES) (call : ℕ) : ℕ :=
  s.waiting.countP (·.call = call) +
    s.channel.toList.countP (fun e => e.stage ≠ .submitted ∧ e.request.call = call) +
    s.submissions.toList.countP (·.call = call) +
    s.handling.toList.countP (·.call = call) +
    s.executed.countP (·.request.call = call)

structure OnePlace (s : State K N BYTES) : Prop where
  once : ∀ call, places s call ≤ 1
  fresh : ∀ call, s.nextCall ≤ call → places s call = 0

theorem OnePlace.of_le {s s' : State K N BYTES} (hs : OnePlace s) (hnext : s'.nextCall = s.nextCall)
    (h : ∀ call, places s' call ≤ places s call) : OnePlace s' where
  once call := (h call).trans (hs.once call)
  fresh call hcall := Nat.le_zero.mp ((h call).trans (hs.fresh call (hnext ▸ hcall)).le)

theorem countP_filter_ne_le (l : List Request) (call other : ℕ) :
    (l.filter (·.call ≠ other)).countP (·.call = call) ≤ l.countP (·.call = call) :=
  List.filter_sublist.countP_le

theorem countP_take (l : List Request) {call : ℕ} {request : Request}
    (h : l.find? (·.call = call) = some request) (other : ℕ) :
    (l.filter (·.call ≠ call)).countP (·.call = other) + [request].countP (·.call = other) ≤
      l.countP (·.call = other) := by
  have hcall : request.call = call := by simpa using List.find?_some h
  have hmem : request ∈ l := List.mem_of_find?_eq_some h
  by_cases hother : call = other
  · subst hother
    have hzero : (l.filter (·.call ≠ call)).countP (·.call = call) = 0 := by
      rw [List.countP_eq_zero]
      intro r hr
      simpa using (List.mem_filter.mp hr).2
    have hpos : 0 < l.countP (·.call = call) :=
      List.countP_pos_iff.mpr ⟨request, hmem, by simpa using hcall⟩
    simp only [hzero, List.countP_singleton, hcall]
    simpa using hpos
  · have hrequest : [request].countP (·.call = other) = 0 := by simp [hcall, hother]
    rw [hrequest]
    exact countP_filter_ne_le l other call

theorem handlePeerUpdate_answer {d d' : Device K N BYTES} {command : Command}
    {completion : CommandCompletion} (h : d.handlePeerUpdate command = .ok (completion, d')) :
    answer command completion = completion := by
  cases command with
  | none =>
    cases h
    rfl
  | add config =>
    obtain ⟨⟨r, peers, indexGenerator, w⟩, -, h⟩ := bind_ok_iff.mp h
    cases h
    cases r <;> rfl
  | update config =>
    obtain ⟨⟨r, peers⟩, -, h⟩ := bind_ok_iff.mp h
    cases h
    cases r <;> rfl
  | remove publicKey =>
    cases h
    rfl
  | get publicKey =>
    rw [Device.handlePeerUpdate] at h
    split at h
    · cases h
      rfl
    · obtain ⟨⟨stats, w⟩, -, h⟩ := bind_ok_iff.mp h
      cases h
      rfl
  | list =>
    cases h
    rfl

/-- What holds of the two mailboxes and the call that holds the lock. -/
structure Invariant (s : State K N BYTES) : Prop extends OnePlace s where
  discarded : ∀ request, s.channel = some ⟨request, .discarded⟩ → s.completions = none
  submitted : ∀ request, s.channel = some ⟨request, .submitted⟩ →
    (s.completions = none ∧ (s.submissions = some request ∨ s.handling = some request)) ∨
      ∃ completion, s.completions = some ⟨request, completion⟩ ∧ ⟨request, completion⟩ ∈ s.executed
  executed : ∀ e ∈ s.executed, answer e.request.command e.completion = e.completion
  returned : ∀ r ∈ s.returned, r ∈ s.executed

theorem OnePlace.filter_executed {s : State K N BYTES} (hs : OnePlace s) {r : Completed}
    (hr : r ∈ s.executed) : s.executed.filter (·.request.call = r.request.call) = [r] := by
  have hmem : r ∈ s.executed.filter (·.request.call = r.request.call) := by simp [hr]
  have hlength : (s.executed.filter (·.request.call = r.request.call)).length ≤ 1 := by
    have hone := hs.once r.request.call
    rw [← List.countP_eq_length_filter]
    rw [places] at hone
    omega
  obtain ⟨a, ha⟩ := List.length_eq_one_iff.mp (le_antisymm hlength (List.length_pos_of_mem hmem))
  rw [ha] at hmem ⊢
  rw [List.mem_singleton.mp hmem]

theorem Invariant.served {s : State K N BYTES} (hs : Invariant s) : Served s :=
  fun r hr => hs.filter_executed (hs.returned r hr)

theorem Invariant.call {s : State K N BYTES} (hs : Invariant s) (command : Command) :
    Invariant { s with
      waiting := s.waiting ++ [⟨s.nextCall, command⟩], nextCall := s.nextCall + 1 } := by
  have hplaces : ∀ call, places { s with
      waiting := s.waiting ++ [⟨s.nextCall, command⟩], nextCall := s.nextCall + 1 } call =
        places s call + if s.nextCall = call then 1 else 0 := by
    intro call
    simp only [places, List.countP_append, List.countP_singleton, decide_eq_true_eq]
    omega
  refine ⟨⟨fun call => ?_, fun call hcall => ?_⟩, hs.discarded, hs.submitted, hs.executed,
    hs.returned⟩
  · rw [hplaces]
    split
    · rename_i heq
      rw [hs.fresh call heq.le]
    · exact hs.once call
  · have hne : s.nextCall ≠ call := (Nat.lt_of_succ_le hcall).ne
    rw [hplaces, if_neg hne, hs.fresh call ((Nat.le_succ _).trans hcall)]

theorem Invariant.lock {s : State K N BYTES} (hs : Invariant s) {call : ℕ} {request : Request}
    (hfree : s.channel = none) (hfind : s.waiting.find? (·.call = call) = some request) :
    Invariant { s with
      channel := some ⟨request, .locked⟩, waiting := s.waiting.filter (·.call ≠ call) } := by
  refine ⟨hs.toOnePlace.of_le rfl fun other => ?_, nofun, nofun, hs.executed, hs.returned⟩
  have htake := countP_take s.waiting hfind other
  simp only [places, hfree, Option.toList_none, Option.toList_some, List.countP_nil] at htake ⊢
  simp only [List.countP_singleton, decide_eq_true_eq] at htake ⊢
  simp only [ne_eq, reduceCtorEq, not_false_eq_true, true_and] at htake ⊢
  omega

theorem Invariant.discardCurrent {s : State K N BYTES} (hs : Invariant s) {request : Request}
    (hchannel : s.channel = some ⟨request, .locked⟩) :
    Invariant { s with channel := some ⟨request, .discarded⟩, completions := none } := by
  refine ⟨hs.toOnePlace.of_le rfl fun other => ?_, fun _ _ => rfl, nofun, hs.executed, hs.returned⟩
  simp [places, hchannel]

theorem Invariant.submit {s : State K N BYTES} (hs : Invariant s) {request : Request}
    (hchannel : s.channel = some ⟨request, .discarded⟩) :
    Invariant { s with
      channel := some ⟨request, .submitted⟩, submissions := some request } := by
  refine ⟨hs.toOnePlace.of_le rfl fun other => ?_, nofun, fun r hr => ?_, hs.executed, hs.returned⟩
  · -- The submission replaces whatever an abandoned call left in the mailbox.
    simp only [places, hchannel, Option.toList_some, List.countP_singleton, decide_eq_true_eq]
    simp only [ne_eq, not_true_eq_false, reduceCtorEq, not_false_eq_true, true_and, false_and,
      if_false]
    omega
  · cases hr
    exact .inl ⟨hs.discarded request hchannel, .inl rfl⟩

theorem Invariant.waitNext {s : State K N BYTES} (hs : Invariant s) {request : Request}
    {completed : Completed} (hchannel : s.channel = some ⟨request, .submitted⟩)
    (hcompleted : s.completions = some completed) :
    Invariant { s with
      channel := none
      completions := none
      returned := s.returned ++ [⟨request, answer request.command completed.completion⟩] } := by
  refine ⟨hs.toOnePlace.of_le rfl fun other => ?_, nofun, nofun, hs.executed, fun r hr => ?_⟩
  · simp [places, hchannel]
  · rcases List.mem_append.mp hr with hr | hr
    · exact hs.returned r hr
    · rcases hs.submitted request hchannel with ⟨hnone, -⟩ | ⟨completion, hown, hexecuted⟩
      · rw [hcompleted] at hnone
        cases hnone
      · rw [hcompleted] at hown
        cases hown
        have hanswer := hs.executed _ hexecuted
        dsimp only at hanswer
        rw [List.mem_singleton.mp hr, hanswer]
        exact hexecuted

theorem Invariant.abandon {s : State K N BYTES} (hs : Invariant s) (call : ℕ) :
    Invariant { s with
      waiting := s.waiting.filter (·.call ≠ call)
      channel := s.channel.filter (·.request.call ≠ call) } := by
  refine ⟨hs.toOnePlace.of_le rfl fun other => ?_, fun r hr => ?_, fun r hr => ?_, hs.executed,
    hs.returned⟩
  · have hwaiting := countP_filter_ne_le s.waiting other call
    have hchannel : (s.channel.filter (·.request.call ≠ call)).toList.countP
        (fun e => e.stage ≠ .submitted ∧ e.request.call = other) ≤
          s.channel.toList.countP (fun e => e.stage ≠ .submitted ∧ e.request.call = other) := by
      rw [Option.toList_filter]
      exact List.filter_sublist.countP_le
    simp only [places] at hwaiting hchannel ⊢
    omega
  · exact hs.discarded r (Option.eq_some_of_filter_eq_some hr)
  · exact hs.submitted r (Option.eq_some_of_filter_eq_some hr)

theorem Invariant.receiveCommand {s : State K N BYTES} (hs : Invariant s) {request : Request}
    (hidle : s.handling = none) (hsubmitted : s.submissions = some request) :
    Invariant { s with handling := some request, submissions := none } := by
  refine ⟨hs.toOnePlace.of_le rfl fun other => ?_, hs.discarded, fun r hr => ?_, hs.executed,
    hs.returned⟩
  · simp [places, hidle, hsubmitted]
  · rcases hs.submitted r hr with ⟨hnone, hplace⟩ | hdone
    · rw [hidle, hsubmitted] at hplace
      simp only [reduceCtorEq, or_false] at hplace
      exact .inl ⟨hnone, .inr hplace⟩
    · exact .inr hdone

theorem Invariant.handlePeerUpdate {s : State K N BYTES} (hs : Invariant s) {request : Request}
    {device : Device K N BYTES} {completion : CommandCompletion}
    (hallowed : Undisturbed s .handlePeerUpdate) (hhandling : s.handling = some request)
    (hcall : s.device.handlePeerUpdate request.command = .ok (completion, device)) :
    Invariant { s with
      device := device
      handling := none
      completions := some ⟨request, completion⟩
      executed := s.executed ++ [⟨request, completion⟩] } := by
  have hone := hs.once request.call
  have hown : ∀ e, s.channel = some e → e.stage ≠ .locked → e.request.call = request.call :=
    fun e he => hallowed request hhandling e he
  refine ⟨hs.toOnePlace.of_le rfl fun other => ?_, fun r hr => ?_, fun r hr => ?_, fun e he => ?_,
    fun r hr => List.mem_append_left _ (hs.returned r hr)⟩
  · simp [places, hhandling, List.countP_append]
    omega
  · -- A call that has not submitted yet cannot be the one whose command was handled.
    have hsame : r.call = request.call := hown _ hr (by simp)
    dsimp only at hr
    simp [places, hr, hhandling, hsame] at hone
    omega
  · have hsame : r.call = request.call := hown _ hr (by simp)
    right
    rcases hs.submitted r hr with ⟨-, hplace | hplace⟩ | ⟨c, -, hdone⟩
    · simp [places, hplace, hhandling, hsame] at hone
      omega
    · rw [hhandling] at hplace
      cases hplace
      exact ⟨completion, rfl, by simp⟩
    · have hpos : 0 < s.executed.countP (·.request.call = request.call) :=
        List.countP_pos_iff.mpr ⟨_, hdone, by simpa using hsame⟩
      simp only [places, hhandling, Option.toList_some, List.countP_singleton] at hone
      simp at hone
      omega
  · rcases List.mem_append.mp he with he | he
    · exact hs.executed e he
    · rw [List.mem_singleton.mp he]
      exact handlePeerUpdate_answer hcall

theorem step_invariant {s s' : State K N BYTES} {a : Action} {o : Unit}
    (hallowed : Undisturbed s a) (hs : Invariant s) (h : step s a = .ok (o, s')) : Invariant s' := by
  cases a with
  | call command =>
    cases h
    exact hs.call command
  | lock call =>
    rw [step] at h
    split at h
    · rename_i hfree hfind
      cases h
      exact hs.lock hfree hfind
    · cases h
      exact hs
  | discardCurrent =>
    rw [step] at h
    split at h
    · rename_i hchannel
      cases h
      exact hs.discardCurrent hchannel
    · cases h
      exact hs
  | submit =>
    rw [step] at h
    split at h
    · rename_i hchannel
      cases h
      exact hs.submit hchannel
    · cases h
      exact hs
  | waitNext =>
    rw [step] at h
    split at h
    · rename_i hchannel hcompleted
      cases h
      exact hs.waitNext hchannel hcompleted
    · cases h
      exact hs
  | abandon call =>
    cases h
    exact hs.abandon call
  | receiveCommand =>
    rw [step] at h
    split at h
    · rename_i hidle hsubmitted
      cases h
      exact hs.receiveCommand hidle hsubmitted
    · cases h
      exact hs
  | handlePeerUpdate =>
    rw [step] at h
    split at h
    · cases h
      exact hs
    · rename_i hhandling
      obtain ⟨⟨completion, device⟩, hcall, h⟩ := bind_ok_iff.mp h
      cases h
      exact hs.handlePeerUpdate hallowed hhandling hcall
  | event e =>
    unfold step at h
    dsimp only at h
    split at h
    · cases h
      exact hs
    · cases h
      exact hs
    · obtain ⟨⟨outputs, device⟩, -, h⟩ := bind_ok_iff.mp h
      cases h
      exact { hs with }

def start (d : Device K N BYTES) : State K N BYTES := { device := d }

theorem start_invariant (d : Device K N BYTES) : Invariant (start d) where
  once call := by simp [places, start]
  fresh call _ := by simp [places, start]
  discarded _ h := by cases h
  submitted _ h := by cases h
  executed _ he := absurd he List.not_mem_nil
  returned _ hr := absurd hr List.not_mem_nil

theorem run_calls_served {d : Device K N BYTES} {actions : List Action} {os : List Unit}
    {t : State K N BYTES} (hallowed : Machine.Along step Undisturbed (start d) actions)
    (hrun : Machine.run step (start d) actions = .ok (os, t)) : Served t :=
  (Machine.run_invariant_along (fun _ _ _ _ hi hs h => step_invariant hi hs h) hallowed hrun
    (start_invariant d)).served

def droppedLate : List Action :=
  [.call (.remove (Sample.key 5)), .lock 0, .discardCurrent, .submit, .receiveCommand,
    .handlePeerUpdate, .abandon 0, .call (.update (Sample.peerConfig 7 [] none)), .lock 1,
    .discardCurrent, .submit, .receiveCommand, .handlePeerUpdate, .waitNext]

def droppedEarly : List Action :=
  [.call (.remove (Sample.key 5)), .lock 0, .discardCurrent, .submit, .receiveCommand,
    .abandon 0, .call (.update (Sample.peerConfig 7 [] none)), .lock 1, .discardCurrent, .submit,
    .handlePeerUpdate, .waitNext]

theorem run_calls_served_dropped_late :
    ∃ d os t, Sample.device 1 [] = .ok (.ok d) ∧ Machine.Along step Undisturbed (start d) droppedLate ∧
      Machine.run step (start d) droppedLate = .ok (os, t) ∧
      t.returned.map (fun r => (r.request.call, r.completion)) = [(1, .error .peerNotFound)] ∧
      Served t := by
  have hrun : okAnd (okAnd fun d => Machine.Along step Undisturbed (start d) droppedLate ∧
      okAnd (fun r => r.2.returned.map (fun r => (r.request.call, r.completion)) =
        [(1, .error .peerNotFound)]) (Machine.run step (start d) droppedLate)) (Sample.device 1 []) =
          true := by
    decide +kernel
  obtain ⟨r, hnew, hstarted⟩ := exists_of_okAnd hrun
  obtain ⟨d, rfl, hran⟩ := exists_of_okAnd hstarted
  obtain ⟨hallowed, hran⟩ := of_decide_eq_true hran
  obtain ⟨⟨os, t⟩, hrun, hreturned⟩ := exists_of_okAnd hran
  exact ⟨d, os, t, hnew, hallowed, hrun, of_decide_eq_true hreturned,
    run_calls_served hallowed hrun⟩

/-- The second call returns the answer to the first. The device has not seen its command. -/
theorem dropped_call_answers_next :
    ∃ d os t, Sample.device 1 [] = .ok (.ok d) ∧
      Machine.run step (start d) droppedEarly = .ok (os, t) ∧
      t.returned = [⟨⟨1, .update (Sample.peerConfig 7 [] none)⟩, .ok .none⟩] ∧
      t.executed = [⟨⟨0, .remove (Sample.key 5)⟩, .ok .none⟩] ∧ ¬Served t := by
  have hrun : okAnd (okAnd fun d => okAnd (fun r =>
      r.2.returned = [⟨⟨1, .update (Sample.peerConfig 7 [] none)⟩, .ok .none⟩] ∧
        r.2.executed = [⟨⟨0, .remove (Sample.key 5)⟩, .ok .none⟩])
      (Machine.run step (start d) droppedEarly)) (Sample.device 1 []) = true := by
    decide +kernel
  obtain ⟨r, hnew, hstarted⟩ := exists_of_okAnd hrun
  obtain ⟨d, rfl, hran⟩ := exists_of_okAnd hstarted
  obtain ⟨⟨os, t⟩, hrun, hends⟩ := exists_of_okAnd hran
  obtain ⟨hreturned, hexecuted⟩ := of_decide_eq_true hends
  refine ⟨d, os, t, hnew, hrun, hreturned, hexecuted, fun hserved => ?_⟩
  rw [Served, hreturned, hexecuted] at hserved
  simp at hserved

end CommandClient

end Tendrilix.Device
