import HawkTracer.Base.Run
import HawkTracer.Parser.Reader
import Mathlib.Data.List.Infix

/-!
# The threads of the client

The client reads in a second thread. `_read_events` reads an event and gives it to the converter,
over and over, as long as `_is_running` is set and there is something to read; then it clears
`_is_running`. The main thread waits for that, and if the source is a connection, it clears
`_is_running` itself when the user asks for it. In the end it stops the stream and the converter.

`HawkTracer.Client.Session.step` has a step for every call of the main thread and for every test
and every round of the loop. `wait_for_complete` returns in a state where `_is_running` is not set,
and `join` in one where the thread has ended. Whether a waiting thread is woken up is another
question, see `HawkTracer.ClientUtils.WakeUp`.

The stream and the converter are used by one thread at a time, in every interleaving, since the
main thread stops them only behind a `join` (`HawkTracer.Client.Session.stopped_after_join`). What
the converter has been given in the end is what one thread alone would have given it, of a file all
of it, and of a connection the events up to some round
(`HawkTracer.Client.Session.output_of_run`).
-/

namespace HawkTracer.Client

open HawkTracer.Parser Reader

/-- What the client calls of a `Converter` when it has been initialized. -/
structure Conversion (χ ω : Type) where
  processEvent : χ → Event → Except Stop χ
  stop : χ → ω

/-- Where the reading thread is. -/
inductive ThreadPlace where
  /-- It is about to test `_is_running`. -/
  | test
  /-- It is in a round of the loop. -/
  | round
  /-- It has left the loop and is about to clear `_is_running`. -/
  | clear
  /-- It is about to call `notify_one`. -/
  | notify
  | done
  deriving DecidableEq

/-- What the main thread does, one thing after another. -/
inductive MainCall where
  | getchar
  /-- `_is_running = false`, in `stop`. -/
  | clearRunning
  /-- `_thread.join`, in `stop`, if the thread is joinable. -/
  | join
  /-- `_stream->stop`, in `stop`. -/
  | stopStream
  | waitForComplete
  /-- `stop` of the converter. -/
  | stopConverter
  deriving DecidableEq

/-- `ProtocolReader::stop`. -/
def readerStop : List MainCall := [.clearRunning, .join, .stopStream]

/-- What `main` does after `start`. -/
def mainCalls (isStreamContinuous : Bool) : List MainCall :=
  (if isStreamContinuous then .getchar :: readerStop else []) ++
    .waitForComplete :: readerStop ++ [.stopConverter]

/-- The state of both threads, after `start`. -/
structure Session (σ χ ω : Type) where
  reader : Reader σ
  converter : χ
  isRunning : Bool
  thread : ThreadPlace
  joinable : Bool
  main : List MainCall
  /-- What the converter has made of it. -/
  output : Option ω
  /-- An exception, or undefined behaviour, in the reading thread. -/
  crashed : Option Stop

/-- Which thread goes on. -/
inductive SessionOp where
  | thread
  | main

namespace Session

variable {σ χ ω : Type} (P : Platform) (input : UInt8 → Input σ) (flat : Bool) (depth : ℕ)
  (K : Conversion χ ω)

/-- After `start`. -/
def started (isStreamContinuous : Bool) (reader : Reader σ) (converter : χ) : Session σ χ ω where
  reader := reader
  converter := converter
  isRunning := true
  thread := .test
  joinable := true
  main := mainCalls isStreamContinuous
  output := none
  crashed := none

/-- A round of `_read_events`: what is delivered goes to the converter. -/
def round (s : Session σ χ ω) : Session σ χ ω :=
  match s.reader.step P input flat depth with
  | (r, some .error) => { s with reader := r, thread := .clear }
  | (r, some w) => { s with reader := r, crashed := some w }
  | (r, none) =>
    match (r.delivered.drop s.reader.delivered.length).foldlM
        (fun c d => K.processEvent c d.event) s.converter with
    | .error w => { s with reader := r, crashed := some w }
    | .ok c => { s with reader := r, converter := c, thread := .test }

/-- The reading thread. -/
def threadStep (s : Session σ χ ω) : Session σ χ ω :=
  match s.thread with
  | .test => { s with thread := if s.isRunning then .round else .clear }
  | .round => s.round P input flat depth K
  | .clear => { s with isRunning := false, thread := .notify }
  | .notify => { s with thread := .done }
  | .done => s

/-- One call of the main thread. -/
def mainStep (s : Session σ χ ω) : Session σ χ ω :=
  match s.main with
  | [] => s
  | .clearRunning :: rest => { s with isRunning := false, main := rest }
  | .join :: rest => { s with joinable := false, main := rest }
  | .stopConverter :: rest => { s with output := some (K.stop s.converter), main := rest }
  | _ :: rest => { s with main := rest }

/-- One step of one thread. -/
def step (s : Session σ χ ω) : SessionOp → Session σ χ ω
  | .thread => s.threadStep P input flat depth K
  | .main => s.mainStep K

/-- **When a thread can go on**: not after a crash, and the main thread not past a `join` or a
`wait_for_complete` that does not return. -/
def Allowed (s : Session σ χ ω) : SessionOp → Prop
  | .thread => s.crashed = none ∧ s.thread ≠ .done
  | .main => s.crashed = none ∧
    match s.main with
    | [] => False
    | .join :: _ => s.joinable = true → s.thread = .done
    | .waitForComplete :: _ => s.isRunning = false
    | _ => True

/-! ### One thread alone -/

variable {P input flat depth K}

/-- **The reader has come to the end**: a round has found that there is nothing left to read. -/
def Ended (P : Platform) (input : UInt8 → Input σ) (flat : Bool) (depth : ℕ) (start r : Reader σ) :
    Prop :=
  ∃ k r', start.rounds P input flat depth k = some r' ∧
    r'.step P input flat depth = (r, some .error)

/-- What a round does to the list of what was delivered. -/
def Adds (r : Reader σ) (result : Reader σ × Option Stop) : Prop :=
  match result.2 with
  | none => ∃ d, result.1.delivered = r.delivered ++ [d]
  | some _ => result.1.delivered = r.delivered

/-- **A round delivers one event, or it stops.** -/
theorem adds_step (P : Platform) (input : UInt8 → Input σ) (flat : Bool) (depth : ℕ)
    (r : Reader σ) : Adds r (r.step P input flat depth) := by
  have hcalled : ∀ {s header event x}, { r with stream := s }.Called P header event x →
      Adds r x := by
    rintro s header event x (⟨c, w⟩ | ⟨c, -⟩)
    · rfl
    · exact ⟨_, rfl⟩
  have hround := r.round_step P input flat depth
  generalize r.step P input flat depth = x at hround
  rcases hround with ⟨s, w⟩ | ⟨-, h⟩ | ⟨-, -, -, h⟩
  · rfl
  · exact hcalled h
  · exact hcalled h

theorem exists_delivered {r r' : Reader σ} (h : r.step P input flat depth = (r', none)) :
    ∃ d, r'.delivered = r.delivered ++ [d] := by
  have hadds := adds_step P input flat depth r
  rwa [h] at hadds

theorem delivered_of_stop {r r' : Reader σ} {w : Stop}
    (h : r.step P input flat depth = (r', some w)) : r'.delivered = r.delivered := by
  have hadds := adds_step P input flat depth r
  rwa [h] at hadds

/-- The converter after the events. -/
def Converts (K : Conversion χ ω) (c₀ : χ) (es : List Event) (c : χ) : Prop :=
  es.foldlM K.processEvent c₀ = .ok c

theorem converts_append {c₀ c c' : χ} {es : List Event} {e : Event} (h : Converts K c₀ es c)
    (he : K.processEvent c e = .ok c') : Converts K c₀ (es ++ [e]) c' := by
  rw [Converts, List.foldlM_append, h]
  show (K.processEvent c e >>= fun s => [].foldlM K.processEvent s) = .ok c'
  rw [he]
  rfl

/-! ### What holds in every state -/

/-- What the main thread may do before it has joined the other one. -/
def BeforeJoin : List MainCall → Prop
  | .join :: _ => True
  | .getchar :: rest | .clearRunning :: rest | .waitForComplete :: rest => BeforeJoin rest
  | _ => False

/-- The reading thread has left the loop and cleared `_is_running`. -/
def Cleared (place : ThreadPlace) : Prop := place = .notify ∨ place = .done

/-- **What holds in every state** without a crash. -/
structure Sound (K : Conversion χ ω) (P : Platform) (input : UInt8 → Input σ) (flat : Bool)
    (depth : ℕ) (continuous : Bool) (start : Reader σ) (c₀ : χ) (s : Session σ χ ω) : Prop where
  converted : Converts K c₀ (s.reader.delivered.map Delivery.event) s.converter
  reading : s.thread = .test ∨ s.thread = .round →
    ∃ k, start.rounds P input flat depth k = some s.reader
  read : (∃ k, start.rounds P input flat depth k = some s.reader) ∨
    Ended P input flat depth start s.reader
  calls : s.main <:+ mainCalls continuous
  beforeJoin : s.joinable = true → BeforeJoin s.main
  joined : s.joinable = false → s.thread = .done
  output : s.output = if s.main = [] then some (K.stop s.converter) else none
  /-- The loop over a file is left at the end of the file, -/
  ended : continuous = false → s.thread = .clear ∨ Cleared s.thread →
    Ended P input flat depth start s.reader
  /-- `_is_running` is cleared behind it, -/
  cleared : continuous = false → s.isRunning = false → Cleared s.thread
  /-- and the main thread waits for that. -/
  waited : continuous = false → s.main = mainCalls false ∨
    .waitForComplete ∉ s.main ∧ Cleared s.thread

variable {continuous : Bool} {start : Reader σ} {c₀ : χ} {s : Session σ χ ω}

theorem sound_started (hstart : start.delivered = []) :
    Sound K P input flat depth continuous start c₀ (started continuous start c₀) where
  converted := by
    rw [Converts, started, hstart]
    rfl
  reading := fun _ => ⟨0, rfl⟩
  read := .inl ⟨0, rfl⟩
  calls := List.suffix_rfl
  beforeJoin := fun _ => by cases continuous <;> trivial
  joined := by rintro ⟨⟩
  output := by cases continuous <;> rfl
  ended := by rintro - (h | h | h) <;> cases h
  cleared := by rintro - ⟨⟩
  waited := by
    rintro rfl
    exact .inl rfl

/-- A round that does not crash: the reader comes to the end, or it delivers an event that the
converter takes. -/
theorem round_cases (s : Session σ χ ω) (h : (s.round P input flat depth K).crashed = none) :
    (∃ r, s.reader.step P input flat depth = (r, some .error) ∧
      s.round P input flat depth K = { s with reader := r, thread := .clear }) ∨
    ∃ r d c, s.reader.step P input flat depth = (r, none) ∧
      r.delivered = s.reader.delivered ++ [d] ∧ K.processEvent s.converter d.event = .ok c ∧
      s.round P input flat depth K =
        { s with reader := r, converter := c, thread := .test } := by
  rw [round] at h ⊢
  rcases hstep : s.reader.step P input flat depth with ⟨r, _ | w⟩
  · rw [hstep] at h
    obtain ⟨d, hd⟩ := exists_delivered hstep
    have hdrop : (r.delivered.drop s.reader.delivered.length).foldlM
        (fun c d => K.processEvent c d.event) s.converter = K.processEvent s.converter d.event := by
      rw [hd, List.drop_left, List.foldlM_cons]
      exact bind_pure _
    simp only [hdrop] at h ⊢
    rcases hprocess : K.processEvent s.converter d.event with w | c
    · rw [hprocess] at h
      cases h
    · exact .inr ⟨r, d, c, rfl, hd, hprocess, rfl⟩
  · cases w with
    | error => exact .inl ⟨r, rfl, rfl⟩
    | _ =>
      rw [hstep] at h
      cases h

section

variable (h : Sound K P input flat depth continuous start c₀ s)

include h

theorem Sound.joinable_eq (hplace : ¬ Cleared s.thread) : s.joinable = true := by
  rcases hj : s.joinable with _ | _
  · exact absurd (.inr (h.joined hj)) hplace
  · rfl

theorem Sound.main_ne_nil (hplace : ¬ Cleared s.thread) : s.main ≠ [] := by
  intro hnil
  have hbefore := h.beforeJoin (h.joinable_eq hplace)
  rw [hnil] at hbefore
  exact hbefore

/-- As long as the thread has not cleared `_is_running`, it is set and the main thread waits. -/
theorem Sound.waiting (hplace : ¬ Cleared s.thread) (hfile : continuous = false) :
    s.isRunning = true ∧ s.main = mainCalls false := by
  refine ⟨?_, (h.waited hfile).resolve_right fun hwaited => hplace hwaited.2⟩
  rcases hr : s.isRunning with _ | _
  · exact absurd (h.cleared hfile hr) hplace
  · rfl

/-- The test of `_is_running`. -/
theorem Sound.test (hthread : s.thread = .test) :
    Sound K P input flat depth continuous start c₀
      { s with thread := if s.isRunning then .round else .clear } := by
  have hplace : ¬ Cleared s.thread := by simp [Cleared, hthread]
  exact { h with
    reading := fun _ => h.reading (.inl hthread)
    joined := fun hj => absurd (.inr (h.joined hj)) hplace
    ended := fun hfile hleft => by
      rw [(h.waiting hplace hfile).1] at hleft
      rcases hleft with hc | hc | hc <;> cases hc
    cleared := fun hfile hr => absurd (h.cleared hfile hr) hplace
    waited := fun hfile => .inl (h.waiting hplace hfile).2 }

/-- A round that finds nothing left to read. -/
theorem Sound.round_error (hthread : s.thread = .round) {r : Reader σ}
    (hstep : s.reader.step P input flat depth = (r, some .error)) :
    Sound K P input flat depth continuous start c₀ { s with reader := r, thread := .clear } := by
  have hplace : ¬ Cleared s.thread := by simp [Cleared, hthread]
  obtain ⟨k, hk⟩ := h.reading (.inr hthread)
  have hended : Ended P input flat depth start r := ⟨k, s.reader, hk, hstep⟩
  exact { h with
    converted := by
      dsimp only
      rw [delivered_of_stop hstep]
      exact h.converted
    reading := by rintro (hc | hc) <;> cases hc
    read := .inr hended
    joined := fun hj => absurd (.inr (h.joined hj)) hplace
    ended := fun _ _ => hended
    cleared := fun hfile hr => absurd (h.cleared hfile hr) hplace
    waited := fun hfile => .inl (h.waiting hplace hfile).2 }

/-- A round that delivers an event. -/
theorem Sound.round_event (hthread : s.thread = .round) {r : Reader σ} {d : Delivery} {c : χ}
    (hstep : s.reader.step P input flat depth = (r, none))
    (hd : r.delivered = s.reader.delivered ++ [d])
    (hc : K.processEvent s.converter d.event = .ok c) :
    Sound K P input flat depth continuous start c₀
      { s with reader := r, converter := c, thread := .test } := by
  have hplace : ¬ Cleared s.thread := by simp [Cleared, hthread]
  obtain ⟨k, hk⟩ := h.reading (.inr hthread)
  have hrounds : start.rounds P input flat depth (k + 1) = some r := by
    rw [rounds_add, hk, Option.bind_some, rounds_succ hstep]
    rfl
  exact { h with
    converted := by
      dsimp only
      rw [hd, List.map_append]
      exact converts_append h.converted hc
    reading := fun _ => ⟨k + 1, hrounds⟩
    read := .inl ⟨k + 1, hrounds⟩
    joined := fun hj => absurd (.inr (h.joined hj)) hplace
    output := by
      rw [h.output, if_neg (h.main_ne_nil hplace)]
      exact (if_neg (h.main_ne_nil hplace)).symm
    ended := by rintro - (hc | hc | hc) <;> cases hc
    cleared := fun hfile hr => absurd (h.cleared hfile hr) hplace
    waited := fun hfile => .inl (h.waiting hplace hfile).2 }

/-- The end of the reading thread. -/
theorem Sound.clear (hthread : s.thread = .clear) :
    Sound K P input flat depth continuous start c₀
      { s with isRunning := false, thread := .notify } := by
  have hplace : ¬ Cleared s.thread := by simp [Cleared, hthread]
  exact { h with
    reading := by rintro (hc | hc) <;> cases hc
    joined := fun hj => absurd (.inr (h.joined hj)) hplace
    ended := fun hfile _ => h.ended hfile (.inl hthread)
    cleared := fun _ _ => .inl rfl
    waited := fun hfile => .inl (h.waiting hplace hfile).2 }

theorem Sound.notify (hthread : s.thread = .notify) :
    Sound K P input flat depth continuous start c₀ { s with thread := .done } :=
  { h with
    reading := by rintro (hc | hc) <;> cases hc
    joined := fun _ => rfl
    ended := fun hfile _ => h.ended hfile (.inr (.inl hthread))
    cleared := fun _ _ => .inr rfl
    waited := fun hfile => (h.waited hfile).imp_right fun hwaited => ⟨hwaited.1, .inr rfl⟩ }

/-- **The reading thread** keeps what holds. -/
theorem Sound.threadStep (hdone : s.thread ≠ .done)
    (hcrash : (s.threadStep P input flat depth K).crashed = none) :
    Sound K P input flat depth continuous start c₀ (s.threadStep P input flat depth K) := by
  rw [Session.threadStep] at hcrash ⊢
  rcases hthread : s.thread with _ | _ | _ | _ | _
  · exact h.test hthread
  · rw [hthread] at hcrash
    rcases round_cases s hcrash with ⟨r, hstep, hround⟩ | ⟨r, d, c, hstep, hd, hc, hround⟩
    · dsimp only
      rw [hround]
      exact h.round_error hthread hstep
    · dsimp only
      rw [hround]
      exact h.round_event hthread hstep hd hc
  · exact h.clear hthread
  · exact h.notify hthread
  · exact absurd hthread hdone

omit h in
/-- The last call is that of the converter. -/
theorem tail_eq_nil_iff {call : MainCall} {rest : List MainCall}
    (h : call :: rest <:+ mainCalls continuous) : rest = [] ↔ call = .stopConverter := by
  have hall : ∀ continuous, ∀ calls ∈ (mainCalls continuous).tails, calls ≠ [] →
      (calls.tail = [] ↔ calls.head? = some .stopConverter) := by
    decide
  have hcall := hall continuous (call :: rest) ((List.mem_tails _ _).mpr h) (List.cons_ne_nil _ _)
  rwa [List.tail_cons, List.head?_cons, Option.some.injEq] at hcall

/-- A call that is not the last one, as far as the calls that are left are concerned. -/
theorem Sound.called {call : MainCall} {rest : List MainCall} (hmain : s.main = call :: rest)
    (hlast : call ≠ .stopConverter) (hbefore : s.joinable = true → BeforeJoin rest)
    (hwait : continuous = false → call = .waitForComplete → Cleared s.thread) :
    Sound K P input flat depth continuous start c₀ { s with main := rest } := by
  have hcalls := h.calls
  rw [hmain] at hcalls
  have hrest : rest ≠ [] := fun hnil => hlast ((tail_eq_nil_iff hcalls).mp hnil)
  exact { h with
    calls := (List.suffix_cons call rest).trans hcalls
    beforeJoin := hbefore
    output := by
      rw [h.output, hmain, if_neg (List.cons_ne_nil _ _)]
      exact (if_neg hrest).symm
    waited := fun hfile => by
      rcases h.waited hfile with hall | ⟨hnot, hcleared⟩
      · rw [hmain] at hall
        obtain ⟨rfl, rfl⟩ := List.cons.inj hall
        have hnot : MainCall.waitForComplete ∉ readerStop ++ [.stopConverter] := by decide
        exact .inr ⟨hnot, hwait hfile rfl⟩
      · rw [hmain] at hnot
        exact .inr ⟨fun hmem => hnot (List.mem_cons_of_mem _ hmem), hcleared⟩ }

/-- A file is read to its end before anything but the first call is made. -/
theorem Sound.cleared_of_call {call : MainCall} {rest : List MainCall}
    (hmain : s.main = call :: rest) (hcall : call ≠ .waitForComplete) (hfile : continuous = false) :
    Cleared s.thread := by
  rcases h.waited hfile with hall | ⟨-, hcleared⟩
  · rw [hmain] at hall
    exact absurd (List.cons.inj hall).1 hcall
  · exact hcleared

/-- **The main thread** keeps what holds. -/
theorem Sound.mainStep (hallowed : s.Allowed .main) :
    Sound K P input flat depth continuous start c₀ (s.mainStep K) := by
  obtain ⟨-, hallowed⟩ := hallowed
  rw [Session.mainStep]
  rcases hmain : s.main with _ | ⟨call, rest⟩
  · rw [hmain] at hallowed
    exact hallowed.elim
  · rw [hmain] at hallowed
    have hbefore := h.beforeJoin
    rw [hmain] at hbefore
    rcases call with _ | _ | _ | _ | _ | _
    · exact h.called hmain (by decide) hbefore (by rintro - ⟨⟩)
    · have hnext := h.called hmain (by decide) hbefore (by rintro - ⟨⟩)
      exact { hnext with cleared := fun hfile _ => h.cleared_of_call hmain (by decide) hfile }
    · have hdone : s.thread = .done := by
        rcases hj : s.joinable with _ | _
        · exact h.joined hj
        · exact hallowed hj
      have hjoined : Sound K P input flat depth continuous start c₀ { s with joinable := false } :=
        { h with
          beforeJoin := by rintro ⟨⟩
          joined := fun _ => hdone }
      exact hjoined.called hmain (by decide) (by rintro ⟨⟩) (by rintro - ⟨⟩)
    · exact h.called hmain (by decide) (fun hj => (hbefore hj).elim) (by rintro - ⟨⟩)
    · exact h.called hmain (by decide) hbefore fun hfile _ => h.cleared hfile hallowed
    · have hcalls := h.calls
      rw [hmain] at hcalls
      obtain rfl := (tail_eq_nil_iff hcalls).mpr rfl
      exact { h with
        calls := List.nil_suffix
        beforeJoin := fun hj => (hbefore hj).elim
        output := rfl
        waited := fun hfile => .inr ⟨List.not_mem_nil, h.cleared_of_call hmain (by decide) hfile⟩ }

end

/-! ### Runs -/

theorem sound_step (s : Session σ χ ω) (o : SessionOp)
    (hs : s.crashed = none → Sound K P input flat depth continuous start c₀ s) (ho : s.Allowed o)
    (hcrash : (step P input flat depth K s o).crashed = none) :
    Sound K P input flat depth continuous start c₀ (step P input flat depth K s o) := by
  rcases o with _ | _
  · exact (hs ho.1).threadStep ho.2 hcrash
  · exact (hs ho.1).mainStep ho

/-- **One thread at a time**: in every interleaving, the main thread stops the stream and the
converter when the reading thread has ended, and not before. -/
theorem stopped_after_join (K : Conversion χ ω) (P : Platform) (input : UInt8 → Input σ)
    (flat : Bool) (depth : ℕ) (continuous : Bool) (stream : σ) (c₀ : χ) {os : List SessionOp}
    (hos : StepsMeet (step P input flat depth K) Allowed
      (started continuous (Reader.new stream) c₀) os) :
    StepsMeet (step P input flat depth K) (fun s o => ∀ call rest, o = .main →
      s.main = call :: rest → call = .stopStream ∨ call = .stopConverter → s.thread = .done)
      (started continuous (Reader.new stream) c₀) os := by
  refine StepsMeet.imp sound_step ?_ (fun _ => sound_started rfl) hos hos
  rintro s o hs ho call rest rfl hmain hcall
  have hsound := hs ho.1
  refine hsound.joined ?_
  rcases hj : s.joinable with _ | _
  · rfl
  · have hbefore := hsound.beforeJoin hj
    rw [hmain] at hbefore
    rcases hcall with rfl | rfl <;> exact hbefore.elim

/-- **What comes out**: when the main thread is through, the converter has been stopped after the
events of a number of rounds, one after another as one thread alone would have read them. If the
source is a file, these are all there are. -/
theorem output_of_run (K : Conversion χ ω) (P : Platform) (input : UInt8 → Input σ)
    (flat : Bool) (depth : ℕ) (continuous : Bool) (stream : σ) (c₀ : χ) {os : List SessionOp}
    (hos : StepsMeet (step P input flat depth K) Allowed
      (started continuous (Reader.new stream) c₀) os)
    (hcrash : (runFrom (step P input flat depth K)
      (started continuous (Reader.new stream) c₀) os).crashed = none)
    (hend : (runFrom (step P input flat depth K)
      (started continuous (Reader.new stream) c₀) os).main = []) :
    ∃ k r c, (Reader.new stream).rounds P input flat depth k = some r ∧
      (r.delivered.map Delivery.event).foldlM K.processEvent c₀ = .ok c ∧
      (runFrom (step P input flat depth K)
        (started continuous (Reader.new stream) c₀) os).output = some (K.stop c) ∧
      (continuous = false → (r.step P input flat depth).2 = some .error) := by
  have hsound := (throughout_of_step sound_step (fun _ => sound_started rfl) hos).last hcrash
  set s := runFrom (step P input flat depth K) (started continuous (Reader.new stream) c₀) os
  have houtput := hsound.output
  rw [if_pos hend] at houtput
  have hended : continuous = false → Ended P input flat depth (Reader.new stream) s.reader := by
    intro hfile
    rcases hsound.waited hfile with hall | ⟨-, hcleared⟩
    · rw [hend] at hall
      cases hall
    · exact hsound.ended hfile (.inr hcleared)
  -- the last round of a file delivers nothing
  by_cases hlast : Ended P input flat depth (Reader.new stream) s.reader
  · obtain ⟨k, r, hk, hstep⟩ := hlast
    refine ⟨k, r, s.converter, hk, ?_, houtput, fun _ => by rw [hstep]⟩
    rw [← delivered_of_stop hstep]
    exact hsound.converted
  · obtain ⟨k, hk⟩ := hsound.read.resolve_right hlast
    exact ⟨k, s.reader, s.converter, hk, hsound.converted, houtput,
      fun hfile => absurd (hended hfile) hlast⟩

/-! ### A file that can be converted -/

variable {r r₁ : Reader σ} {c : χ}

/-- Where a run of the reader has come to. -/
theorem ended_of_run {n : ℕ} (h : start.run P input flat depth n = (r, .error)) :
    Ended P input flat depth start r := by
  induction n generalizing start with
  | zero => cases h
  | succ n ih =>
    rw [run] at h
    rcases hstep : start.step P input flat depth with ⟨r', _ | w⟩
    · rw [hstep] at h
      obtain ⟨k, r'', hk, hr''⟩ := ih h
      exact ⟨k + 1, r'', by rw [rounds_succ hstep, hk], hr''⟩
    · rw [hstep] at h
      obtain ⟨rfl, rfl⟩ := Prod.mk.inj h
      exact ⟨0, start, rfl, hstep⟩

section

variable (h : Ended P input flat depth start r)

include h

/-- The next round of a reader that will come to the end. -/
theorem Ended.cases :
    start.step P input flat depth = (r, some .error) ∨
      ∃ r', start.step P input flat depth = (r', none) ∧ Ended P input flat depth r' r := by
  obtain ⟨k, r'', hk, hr''⟩ := h
  rcases k with _ | k
  · obtain rfl := Option.some.inj hk
    exact .inl hr''
  · obtain ⟨r', hstep, hk⟩ := exists_step_of_rounds hk
    exact .inr ⟨r', hstep, k, r'', hk, hr''⟩

theorem Ended.of_rounds {k : ℕ} (hk : start.rounds P input flat depth k = some r₁) :
    Ended P input flat depth r₁ r := by
  induction k generalizing start with
  | zero =>
    obtain rfl := Option.some.inj hk
    exact h
  | succ k ih =>
    obtain ⟨r', hstep, hk⟩ := exists_step_of_rounds hk
    rcases h.cases with hstep' | ⟨r'', hstep', h'⟩
    · cases hstep.symm.trans hstep'
    · cases hstep.symm.trans hstep'
      exact ih h' hk

theorem Ended.unique (h' : Ended P input flat depth start r₁) : r = r₁ := by
  obtain ⟨k, r', hk, hr'⟩ := h
  rcases (h'.of_rounds hk).cases with hstep | ⟨r'', hstep, -⟩
  · exact (Prod.mk.inj (hr'.symm.trans hstep)).1
  · cases hr'.symm.trans hstep

theorem Ended.isPrefix_delivered : start.delivered <+: r.delivered := by
  obtain ⟨k, r', hk, hr'⟩ := h
  rw [delivered_of_stop hr']
  clear hr'
  induction k generalizing start with
  | zero =>
    obtain rfl := Option.some.inj hk
    exact List.prefix_rfl
  | succ k ih =>
    obtain ⟨r'', hstep, hk⟩ := exists_step_of_rounds hk
    obtain ⟨d, hd⟩ := exists_delivered hstep
    exact (hd ▸ List.prefix_append _ _ : start.delivered <+: r''.delivered).trans (ih hk)

end

/-- What can be converted can be converted up to any point. -/
theorem Converts.of_isPrefix {es es' : List Event} (h : Converts K c₀ es' c) (hpre : es <+: es') :
    ∃ c', Converts K c₀ es c' := by
  obtain ⟨rest, rfl⟩ := hpre
  rw [Converts, List.foldlM_append] at h
  rcases hes : es.foldlM K.processEvent c₀ with w | c'
  · rw [hes] at h
    cases h
  · exact ⟨c', hes⟩

/-- What a round delivers is taken by the converter, if all is taken in the end. -/
theorem exists_processed {r₂ : Reader σ} {c₁ : χ}
    (hstep : r₁.step P input flat depth = (r₂, none)) (hended : Ended P input flat depth r₂ r)
    (hconverts : Converts K c₀ (r.delivered.map Delivery.event) c)
    (h₁ : Converts K c₀ (r₁.delivered.map Delivery.event) c₁) :
    ∃ c₂, (r₂.delivered.drop r₁.delivered.length).foldlM (fun c d => K.processEvent c d.event) c₁ =
        .ok c₂ ∧ Converts K c₀ (r₂.delivered.map Delivery.event) c₂ := by
  obtain ⟨d, hd⟩ := exists_delivered hstep
  obtain ⟨c₂, hc₂⟩ := hconverts.of_isPrefix (hended.isPrefix_delivered.map Delivery.event)
  refine ⟨c₂, ?_, hc₂⟩
  rw [hd, List.map_append, Converts, List.foldlM_append, h₁] at hc₂
  rw [hd, List.drop_left]
  exact hc₂

/-- A round over a file that can be converted. -/
theorem Sound.not_crashed_round (h : Sound K P input flat depth continuous start c₀ s)
    (hended : Ended P input flat depth start r)
    (hconverts : Converts K c₀ (r.delivered.map Delivery.event) c) (hs : s.crashed = none)
    (hthread : s.thread = .round) : (s.round P input flat depth K).crashed = none := by
  obtain ⟨k, hk⟩ := h.reading (.inr hthread)
  rw [Session.round]
  rcases (hended.of_rounds hk).cases with hstep | ⟨r', hstep, hended'⟩
  · rw [hstep]
    exact hs
  · obtain ⟨c', hc', -⟩ := exists_processed hstep hended' hconverts h.converted
    rw [hstep]
    simp only [hc']
    exact hs

/-- **A file that can be converted is converted**, in every interleaving: there is no crash, and
when the main thread is through, the output is that of one thread alone. -/
theorem converted_of_run (hstart : start.delivered = []) (hended : Ended P input flat depth start r)
    (hconverts : Converts K c₀ (r.delivered.map Delivery.event) c) {os : List SessionOp}
    (hos : StepsMeet (step P input flat depth K) Allowed (started false start c₀) os) :
    (runFrom (step P input flat depth K) (started false start c₀) os).crashed = none ∧
      ((runFrom (step P input flat depth K) (started false start c₀) os).main = [] →
        (runFrom (step P input flat depth K) (started false start c₀) os).output =
          some (K.stop c)) := by
  have hsound : Throughout (step P input flat depth K) (fun s => s.crashed = none ∧
      Sound K P input flat depth false start c₀ s) (started false start c₀) os := by
    refine throughout_of_step (fun s o hs ho => ?_) ⟨rfl, sound_started hstart⟩ hos
    have hcrash : (step P input flat depth K s o).crashed = none := by
      rcases o with _ | _
      · show (s.threadStep P input flat depth K).crashed = none
        rw [Session.threadStep]
        rcases hthread : s.thread with _ | _ | _ | _ | _
        · exact hs.1
        · exact hs.2.not_crashed_round hended hconverts hs.1 hthread
        · exact hs.1
        · exact hs.1
        · exact hs.1
      · show (s.mainStep K).crashed = none
        rw [Session.mainStep]
        split <;> exact hs.1
    exact ⟨hcrash, sound_step s o (fun _ => hs.2) ho hcrash⟩
  obtain ⟨hcrash, hlast⟩ := hsound.last
  refine ⟨hcrash, fun hend => ?_⟩
  have houtput := hlast.output
  rw [if_pos hend] at houtput
  have hcleared :
      Cleared (runFrom (step P input flat depth K) (started false start c₀) os).thread :=
    ((hlast.waited rfl).resolve_left (by rw [hend]; exact (List.cons_ne_nil _ _).symm)).2
  have hreader := (hlast.ended rfl (.inr hcleared)).unique hended
  have hc := hlast.converted
  rw [hreader] at hc
  rw [houtput, Except.ok.inj (hc.symm.trans hconverts)]

/-- The reading thread can come to its end by itself. -/
theorem exists_thread_run {k : ℕ} {r' : Reader σ} {s : Session σ χ ω} (hs : s.crashed = none)
    (hthread : s.thread = .test) (hrunning : s.isRunning = true)
    (hk : s.reader.rounds P input flat depth k = some r')
    (hr' : r'.step P input flat depth = (r, some .error))
    (hconverts : Converts K c₀ (r.delivered.map Delivery.event) c)
    (hs' : Converts K c₀ (s.reader.delivered.map Delivery.event) s.converter) :
    ∃ os, StepsMeet (step P input flat depth K) Allowed s os ∧
      runFrom (step P input flat depth K) s os =
        { s with reader := r, converter := c, isRunning := false, thread := .done } := by
  have htest : step P input flat depth K s .thread = { s with thread := .round } := by
    rw [step, threadStep, hthread]
    simp only [hrunning, if_true]
  have hallowed : s.Allowed .thread := ⟨hs, fun hc => by cases hthread.symm.trans hc⟩
  induction k generalizing s with
  | zero =>
    obtain rfl := Option.some.inj hk
    rw [delivered_of_stop hr'] at hconverts
    obtain rfl := Except.ok.inj (hs'.symm.trans hconverts)
    have hround : step P input flat depth K { s with thread := .round } .thread =
        { s with reader := r, thread := .clear } := by
      show Session.round P input flat depth K { s with thread := .round } = _
      rw [Session.round]
      simp only [hr']
    refine ⟨[.thread, .thread, .thread, .thread], ?_, ?_⟩
    · simp only [StepsMeet, htest, hround]
      exact ⟨hallowed, ⟨hs, by rintro ⟨⟩⟩, ⟨hs, by rintro ⟨⟩⟩, ⟨hs, by rintro ⟨⟩⟩, trivial⟩
    · simp only [runFrom_cons, htest, hround]
      rfl
  | succ k ih =>
    obtain ⟨r₂, hstep, hk⟩ := exists_step_of_rounds hk
    obtain ⟨c₂, hprocess, hc₂⟩ := exists_processed hstep ⟨k, r', hk, hr'⟩ hconverts hs'
    have hround : step P input flat depth K { s with thread := .round } .thread =
        { s with reader := r₂, converter := c₂, thread := .test } := by
      show Session.round P input flat depth K { s with thread := .round } = _
      rw [Session.round]
      simp only [hstep, hprocess]
    obtain ⟨os, hos, hrun⟩ := ih (s := { s with reader := r₂, converter := c₂, thread := .test })
      hs rfl hrunning hk hc₂ (by rw [step, threadStep]; simp only [hrunning, if_true])
      ⟨hs, by rintro ⟨⟩⟩
    refine ⟨.thread :: .thread :: os, ?_, ?_⟩
    · simp only [StepsMeet, htest, hround]
      exact ⟨hallowed, ⟨hs, by rintro ⟨⟩⟩, hos⟩
    · simp only [runFrom_cons, htest, hround]
      exact hrun

/-- **The client can finish** with a file that can be converted. -/
theorem exists_run (hended : Ended P input flat depth start r) (hstart : start.delivered = [])
    (hconverts : Converts K c₀ (r.delivered.map Delivery.event) c) :
    ∃ os, StepsMeet (step P input flat depth K) Allowed (started false start c₀) os ∧
      (runFrom (step P input flat depth K) (started false start c₀) os).main = [] := by
  obtain ⟨k, r', hk, hr'⟩ := hended
  have hs' : Converts K c₀ (start.delivered.map Delivery.event) c₀ := by
    rw [hstart]
    rfl
  obtain ⟨os, hos, hrun⟩ := exists_thread_run (s := started false start c₀) rfl rfl rfl hk hr'
    hconverts hs'
  refine ⟨os ++ [.main, .main, .main, .main, .main], stepsMeet_append_iff.mpr ⟨hos, ?_⟩, ?_⟩
  · rw [hrun]
    exact ⟨⟨rfl, rfl⟩, ⟨rfl, trivial⟩, ⟨rfl, fun _ => rfl⟩, ⟨rfl, trivial⟩, ⟨rfl, trivial⟩, trivial⟩
  · rw [runFrom_append, hrun]
    rfl

/-- A converter that counts events. -/
def counting : Conversion ℕ ℕ where
  processEvent n _ := .ok (n + 1)
  stop n := n

/-- A file with one event, of klass 1. -/
def oneEvent : FileStream := 1 :: List.replicate 19 0

/-- An interleaving that comes to the end. -/
theorem exists_run_oneEvent :
    ∃ os, StepsMeet (step samplePlatform (streamInput .little) true 1 counting) Allowed
        (started false (Reader.new oneEvent) 0) os ∧
      (runFrom (step samplePlatform (streamInput .little) true 1 counting)
        (started false (Reader.new oneEvent) 0) os).crashed = none ∧
      (runFrom (step samplePlatform (streamInput .little) true 1 counting)
        (started false (Reader.new oneEvent) 0) os).main = [] := by
  obtain ⟨r, hended, hone⟩ : ∃ r, Ended samplePlatform (streamInput .little) true 1
      (Reader.new oneEvent) r ∧ r.delivered.length = 1 := ⟨_, ⟨1, _, rfl, rfl⟩, rfl⟩
  obtain ⟨d, hd⟩ := List.length_eq_one_iff.mp hone
  have hconverts : Converts counting 0 (r.delivered.map Delivery.event) 1 := by
    rw [hd]
    rfl
  obtain ⟨os, hos, hend⟩ := exists_run hended rfl hconverts
  exact ⟨os, hos, (converted_of_run rfl hended hconverts hos).1, hend⟩

theorem stopped_after_join_oneEvent :
    ∃ os, StepsMeet (step samplePlatform (streamInput .little) true 1 counting) Allowed
        (started false (Reader.new oneEvent) 0) os ∧
      StepsMeet (step samplePlatform (streamInput .little) true 1 counting) (fun s o =>
        ∀ call rest, o = .main → s.main = call :: rest →
          call = .stopStream ∨ call = .stopConverter → s.thread = .done)
        (started false (Reader.new oneEvent) 0) os := by
  obtain ⟨os, hos, -⟩ := exists_run_oneEvent
  exact ⟨os, hos, stopped_after_join counting samplePlatform (streamInput .little) true 1 false
    oneEvent 0 hos⟩

theorem output_of_run_oneEvent :
    ∃ os k r c, (Reader.new oneEvent).rounds samplePlatform (streamInput .little) true 1 k =
        some r ∧
      (r.delivered.map Delivery.event).foldlM counting.processEvent 0 = .ok c ∧
      (runFrom (step samplePlatform (streamInput .little) true 1 counting)
        (started false (Reader.new oneEvent) 0) os).output = some (counting.stop c) ∧
      (false = false → (r.step samplePlatform (streamInput .little) true 1).2 = some .error) := by
  obtain ⟨os, hos, hcrash, hend⟩ := exists_run_oneEvent
  obtain ⟨k, r, c, h⟩ := output_of_run counting samplePlatform (streamInput .little) true 1 false
    oneEvent 0 hos hcrash hend
  exact ⟨os, k, r, c, h⟩

end Session

end HawkTracer.Client
