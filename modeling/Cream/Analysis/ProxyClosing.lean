import Cream.Model.WebSocketProxy

/-!
# The coupling of the two sockets

The loop of the local socket no longer closes on its way out: it leaves the socket `CLOSED`
only when it ends by a `doClose`, that is

* by a `SocketException` or a frame that breaks the protocol, or
* by a Close frame, a message for a remote client that is not open, or a failed connect,
  when a close is already under way.

A Close frame from the browser, a failed connect or a message for a closed remote client only
begin a close when the socket is still `OPEN`; the loop then ends in `CLOSING`, without
`onClose`. The end of the stream is read again and again. `Good` asks of each step that it is
none of these; `Closing` is the invariant of the runs whose steps are good.
-/

set_option autoImplicit false

namespace Cream.Model

open Cream.Library Transition

namespace WebSocket

/-! ## What is to hold -/

/-- The two sockets are coupled in a state; `bound` bounds the steps of the local thread after
the stream is over, or the remote client has closed or failed. -/
structure Coupled (bound : Nat) (p : Proxy) : Prop where
  finite : ∀ n ∈ p.sinceOver, n ≤ bound
  ended : p.pc = .ended → p.state = .CLOSED ∧ p.onCloses = 1 ∧
    (p.asked = true ∨ p.gone = true ∨ p.everOpen = false)
  converse : ∀ n ∈ p.sinceGone, p.state ≠ .OPEN ∧ (bound < n → p.state = .CLOSED)

/-- The step does not begin a close where the loop will not finish it. -/
def Good (p : Proxy) : Action → Prop
  | .remoteOpen => p.state ≠ .CLOSED
  | .connected interrupted _ =>
    if interrupted ∨ p.remote ≠ .isOpen then p.state = .CLOSING else p.state = .OPEN
  | .check => p.state ≠ .CLOSING
  | .read (.frame .close) write => p.state = .CLOSING ∨ write = .socketException
  | .read (.frame .ping) write =>
    write = .socketException ∨ write = .ok ∧ p.state = .OPEN
  | .read (.frame .part) _ => p.state = .OPEN
  | .read (.frame .message) _ => p.state = .OPEN ↔ p.remote = .isOpen
  | .read .timeout _ => p.state = .OPEN
  | .read .eof _ => False
  | .read .ioException _ => False
  | _ => True

instance (p : Proxy) (a : Action) : Decidable (Good p a) := by
  unfold Good
  split <;> infer_instance

/-! ## The invariant -/

/-- What is recorded of the remote client agrees with it. -/
structure Recorded (p : Proxy) : Prop where
  idle : p.remote = .idle → p.everOpen = false
  closing : p.remote = .closing → p.asked = true
  closed : p.remote = .closed → p.gone = true

/-- The local socket is closed by the local thread alone, once, when the loop is about to
end; and nothing is read after the stream is over. -/
structure Closing (p : Proxy) : Prop where
  recorded : Recorded p
  once : p.onCloses = if p.state = .CLOSED then 1 else 0
  released : p.state = .CLOSED → p.asked = true ∨ p.gone = true ∨ p.everOpen = false
  ending : p.state = .CLOSED → p.pc = .head ∨ p.pc = .ended
  ended : p.pc = .ended → p.state = .CLOSED
  finished : ∀ n ∈ p.sinceOver, p.state = .CLOSED ∧ (n = 0 ∨ n = 1 ∧ p.pc = .ended)
  gone : ∀ n ∈ p.sinceGone, p.state ≠ .OPEN ∧ (0 < n → p.state = .CLOSED)

/-- Before the handshake. -/
theorem closing_initial : Closing Proxy.initial where
  recorded := ⟨fun _ => rfl, nofun, nofun⟩
  once := rfl
  released := nofun
  ending := nofun
  ended := nofun
  finished := nofun
  gone := nofun

/-- While the sockets close, each knows of the other. -/
theorem Closing.coupled {p : Proxy} (h : Closing p) : Coupled 1 p where
  finite := by
    intro n hn
    rcases (h.finished n hn).2 with h0 | ⟨h1, -⟩ <;> omega
  ended := by
    intro hpc
    have hclosed := h.ended hpc
    refine ⟨hclosed, ?_, h.released hclosed⟩
    rw [h.once, if_pos hclosed]
  converse := fun n hn => ⟨(h.gone n hn).1, fun hlt => (h.gone n hn).2 (by omega)⟩

/-! ## The steps -/

/-- `closeRemote` and `onException` touch the remote client only. -/
structure Asked (p q : Proxy) : Prop where
  state : q.state = p.state
  pc : q.pc = p.pc
  onCloses : q.onCloses = p.onCloses
  everOpen : q.everOpen = p.everOpen
  gone : q.gone = p.gone
  sinceOver : q.sinceOver = p.sinceOver
  sinceGone : q.sinceGone = p.sinceGone
  asked : p.asked = true → q.asked = true

/-- `closeRemote` asks the other socket to close. -/
theorem asked_closeRemote (p : Proxy) : Asked p p.closeRemote :=
  ⟨rfl, rfl, rfl, rfl, rfl, rfl, rfl, fun _ => rfl⟩

/-- So does an exception. -/
theorem asked_onException (p : Proxy) : Asked p p.onException := by
  unfold Proxy.onException
  split
  · exact asked_closeRemote p
  · exact ⟨rfl, rfl, rfl, rfl, rfl, rfl, rfl, id⟩

/-- What was asked for is still recorded after `closeRemote`. -/
theorem Recorded.closeRemote {p : Proxy} (h : Recorded p) : Recorded p.closeRemote := by
  unfold Proxy.closeRemote
  refine ⟨fun hr => h.idle ?_, fun _ => rfl, fun hr => h.closed ?_⟩
  · dsimp only at hr
    split at hr
    · cases hr
    · exact hr
  · dsimp only at hr
    split at hr
    · cases hr
    · exact hr

/-- So it is after an exception. -/
theorem Recorded.onException {p : Proxy} (h : Recorded p) : Recorded p.onException := by
  unfold Proxy.onException
  split
  · exact h.closeRemote
  · exact h

/-- The socket has just been closed, once, and the remote client is not left open. -/
structure Done (p q : Proxy) : Prop where
  state : q.state = .CLOSED
  onCloses : q.onCloses = p.onCloses + 1
  recorded : Recorded q
  released : q.asked = true ∨ q.gone = true ∨ q.everOpen = false

/-- **`doClose` of a socket that is not closed**: `onClose` is called, and the remote client
is not left open. -/
theorem done_doClose {p : Proxy} (h : Recorded p) (hopen : p.state ≠ .CLOSED) :
    Done p p.doClose := by
  unfold Proxy.doClose Proxy.onClose
  rw [if_neg hopen]
  dsimp only
  cases hr : p.remote with
  | isOpen =>
    rw [if_pos rfl]
    exact ⟨rfl, rfl, Recorded.closeRemote ⟨nofun, nofun, nofun⟩, .inl rfl⟩
  | idle =>
    rw [if_neg nofun]
    exact ⟨rfl, rfl, ⟨fun _ => h.idle hr, nofun, nofun⟩, .inr (.inr (h.idle hr))⟩
  | closing =>
    rw [if_neg nofun]
    exact ⟨rfl, rfl, ⟨nofun, fun _ => h.closing hr, nofun⟩, .inl (h.closing hr)⟩
  | closed =>
    rw [if_neg nofun]
    exact ⟨rfl, rfl, ⟨nofun, nofun, fun _ => h.closed hr⟩, .inr (.inl (h.closed hr))⟩

/-- Where the thread goes on does not matter. -/
theorem Done.goto {p q : Proxy} (h : Done p q) (pc : Pc) : Done p { q with pc := pc } :=
  ⟨h.state, h.onCloses, ⟨h.recorded.idle, h.recorded.closing, h.recorded.closed⟩, h.released⟩

/-- Nor does anything but how often `onClose` was called. -/
theorem Done.congr {p p' q : Proxy} (h : Done p q) (hsame : p.onCloses = p'.onCloses) :
    Done p' q :=
  ⟨h.state, hsame ▸ h.onCloses, h.recorded, h.released⟩

/-- The way out of the loop closes the socket. -/
theorem done_closed {p : Proxy} (h : Recorded p) (hopen : p.state ≠ .CLOSED) :
    Done p p.closed := by
  have hasked := asked_onException p
  have hdone : Done p.onException p.onException.doClose :=
    done_doClose h.onException (by rw [hasked.state]; exact hopen)
  exact (hdone.goto .ended).congr hasked.onCloses

/-- `close` while a close is under way. -/
theorem done_close {p : Proxy} (write : Write) (h : Recorded p) (hclosing : p.state = .CLOSING) :
    Done p (p.close write).1 ∧ (p.close write).2 = .ok := by
  unfold Proxy.close
  have hnot : p.state ≠ .OPEN := by
    rw [hclosing]
    nofun
  rw [if_neg hnot]
  have hdone : Done { p with state := .CLOSING } ({ p with state := .CLOSING } : Proxy).doClose :=
    done_doClose ⟨h.idle, h.closing, h.closed⟩ nofun
  exact ⟨hdone.congr rfl, rfl⟩

/-- A step of the local thread that closes the socket. -/
theorem Closing.done {p q : Proxy} (h : Closing p) (hopen : p.state ≠ .CLOSED) (hdone : Done p q)
    (hpc : q.pc = .head ∨ q.pc = .ended) (finished : Bool) : Closing (p.counted finished q) where
  recorded := ⟨hdone.recorded.idle, hdone.recorded.closing, hdone.recorded.closed⟩
  once := by
    show q.onCloses = if q.state = .CLOSED then 1 else 0
    rw [hdone.onCloses, h.once, if_neg hopen, if_pos hdone.state]
  released := fun _ => hdone.released
  ending := fun _ => hpc
  ended := fun _ => hdone.state
  finished := by
    intro n hn
    refine ⟨hdone.state, .inl ?_⟩
    have hnone : p.sinceOver = none := by
      cases hover : p.sinceOver with
      | none => rfl
      | some n => exact absurd (h.finished n hover).1 hopen
    have hn' : (if finished then some 0 else none) = some n := by
      have hcount : (p.counted finished q).sinceOver = if finished then some 0 else none := by
        unfold Proxy.counted
        rw [hnone]
      rw [← hcount]
      exact hn
    split at hn'
    · exact (Option.some.inj hn').symm
    · cases hn'
  gone := fun n _ => ⟨by show q.state ≠ .OPEN; rw [hdone.state]; nofun, fun _ => hdone.state⟩

/-- A step of the local thread that leaves the socket open. -/
theorem Closing.onward {p : Proxy} (h : Closing p) (hopen : p.state = .OPEN) {pc : Pc}
    (hpc : pc ≠ .ended) : Closing (p.counted false { p with pc := pc }) := by
  have hover : p.sinceOver = none := by
    cases hover : p.sinceOver with
    | none => rfl
    | some n => exact absurd ((h.finished n hover).1.symm.trans hopen) nofun
  have hgone : p.sinceGone = none := by
    cases hgone : p.sinceGone with
    | none => rfl
    | some n => exact absurd hopen (h.gone n hgone).1
  have hnot : p.state ≠ .CLOSED := by
    rw [hopen]
    nofun
  constructor
  case recorded => exact ⟨h.recorded.idle, h.recorded.closing, h.recorded.closed⟩
  case once => exact h.once
  case released => exact h.released
  case ending => exact fun hclosed => absurd hclosed hnot
  case ended => exact fun hended => absurd hended hpc
  case finished =>
    intro n hn
    unfold Proxy.counted at hn
    rw [hover] at hn
    cases hn
  case gone =>
    intro n hn
    unfold Proxy.counted at hn
    rw [hgone] at hn
    cases hn

/-- A callback begins a close. -/
theorem Closing.began {p : Proxy} (h : Closing p) (hopen : p.state = .OPEN)
    (since : Option Nat) (hsince : ∀ n ∈ since, n = 0) :
    Closing { p with state := .CLOSING, sinceGone := since } := by
  have hnot : p.state ≠ .CLOSED := by
    rw [hopen]
    nofun
  constructor
  case recorded => exact ⟨h.recorded.idle, h.recorded.closing, h.recorded.closed⟩
  case once =>
    show p.onCloses = 0
    rw [h.once, if_neg hnot]
  case released => exact nofun
  case ending => exact nofun
  case ended => exact fun hended => absurd (h.ended hended) hnot
  case finished => exact fun n hn => absurd (h.finished n hn).1 hnot
  case gone =>
    intro n hn
    refine ⟨nofun, fun hlt => ?_⟩
    rw [hsince n hn] at hlt
    exact absurd hlt (Nat.lt_irrefl 0)

/-- The remote client closes or fails, and its callback closes the local socket. -/
theorem Closing.lost {p : Proxy} (h : Closing p) (write : Write) :
    Closing (p.lost.closeLocal write) := by
  unfold Proxy.closeLocal
  have hstate : p.lost.state = p.state := rfl
  rw [hstate]
  split
  · next hopen =>
    have hgone : p.sinceGone = none := by
      cases hgone : p.sinceGone with
      | none => rfl
      | some n => exact absurd hopen (h.gone n hgone).1
    have hclose : (p.lost.close write).1 =
        { p with state := .CLOSING, sinceGone := some 0 } := by
      unfold Proxy.close Proxy.lost
      dsimp only
      rw [if_pos hopen, hgone]
      rfl
    rw [hclose]
    exact h.began hopen (some 0) (fun n hn => (Option.some.inj hn).symm)
  · next hopen =>
    refine ⟨⟨h.recorded.idle, h.recorded.closing, h.recorded.closed⟩, h.once, h.released,
      h.ending, h.ended, h.finished, fun n hn => ⟨hopen, fun hlt => ?_⟩⟩
    unfold Proxy.lost at hn
    cases hgone : p.sinceGone with
    | none =>
      rw [hgone] at hn
      cases hn
      exact absurd hlt (Nat.lt_irrefl 0)
    | some m =>
      rw [hgone] at hn
      cases hn
      exact (h.gone m hgone).2 hlt

/-- `closeRemote` keeps what closes closing. -/
theorem Closing.closeRemote {p : Proxy} (h : Closing p) : Closing p.closeRemote :=
  ⟨h.recorded.closeRemote, h.once, fun _ => .inl rfl, h.ending, h.ended, h.finished, h.gone⟩

/-- A reading loop has a socket that is not closed. -/
theorem Closing.not_closed {p : Proxy} (h : Closing p) (hpc : p.pc = .opening ∨ p.pc = .reading) :
    p.state ≠ .CLOSED := by
  intro hclosed
  rcases h.ending hclosed with h' | h' <;> rw [h'] at hpc <;> rcases hpc with hpc | hpc <;>
    cases hpc

/-- **An iteration of the loop.** -/
theorem Closing.read {p : Proxy} (h : Closing p) (hpc : p.pc = .reading) {incoming : Incoming}
    {write : Write} (hgood : Good p (.read incoming write)) :
    Closing (p.counted (Proxy.isOver write incoming) (p.readWebsocket write incoming)) := by
  have hopen := h.not_closed (.inr hpc)
  have hclosed : ∀ finished, Closing (p.counted finished p.closed) := fun finished =>
    h.done hopen (done_closed h.recorded hopen) (.inr rfl) finished
  have hagain : p.state = .OPEN → Closing (p.counted false p.again) := fun hstate =>
    h.onward hstate nofun
  cases incoming with
  | timeout => exact hagain hgood
  | eof => exact hgood.elim
  | ioException => exact hgood.elim
  | socketException => exact hclosed _
  | webSocketException => exact hclosed _
  | frame f =>
    cases f with
    | part => exact hagain hgood
    | ping =>
      rcases hgood with rfl | ⟨rfl, hstate⟩
      · exact hclosed _
      · exact hagain hstate
    | message =>
      unfold Proxy.readWebsocket Proxy.handleWebsocketFrame
      by_cases hremote : p.remote = .isOpen
      · rw [if_pos hremote]
        exact hagain (hgood.mpr hremote)
      · rw [if_neg hremote]
        have hstate : p.state = .CLOSING := by
          cases hs : p.state with
          | OPEN => exact absurd (hgood.mp hs) hremote
          | CLOSING => rfl
          | CLOSED => exact absurd hs hopen
        exact h.done hopen ((done_close write h.recorded hstate).1.goto .head) (.inl rfl) _
    | close =>
      unfold Proxy.readWebsocket Proxy.handleWebsocketFrame
      by_cases hstate : p.state = .CLOSING
      · rw [if_pos hstate]
        exact h.done hopen ((done_doClose h.recorded hopen).goto .head) (.inl rfl) _
      · have hwrite : write = .socketException := hgood.resolve_left hstate
        have hisOpen : p.state = .OPEN := by
          cases hs : p.state with
          | OPEN => rfl
          | CLOSING => exact absurd hs hstate
          | CLOSED => exact absurd hs hopen
        rw [if_neg hstate]
        unfold Proxy.close
        rw [if_pos hisOpen, hwrite]
        have hdone : Done { p with state := .CLOSING } ({ p with state := .CLOSING } : Proxy).closed :=
          done_closed ⟨h.recorded.idle, h.recorded.closing, h.recorded.closed⟩ nofun
        exact h.done hopen (hdone.congr rfl) (.inr rfl) _

/-- **A good step** keeps the invariant. -/
theorem Closing.step {p q : Proxy} {a : Action} (h : Closing p) (hgood : Good p a)
    (hstep : step p a = some q) : Closing q := by
  cases a with
  | remoteOpen =>
    simp only [WebSocket.step] at hstep
    split at hstep
    · cases hstep
      exact ⟨⟨nofun, nofun, nofun⟩, h.once, fun hclosed => absurd hclosed hgood, h.ending, h.ended,
        h.finished, h.gone⟩
    · cases hstep
  | remoteMessage write =>
    simp only [WebSocket.step] at hstep
    split at hstep
    · split at hstep
      · next hopen =>
        cases hstep
        split
        · exact h
        · have hgone : ∀ n ∈ p.sinceGone, n = 0 := fun n hn => absurd hopen (h.gone n hn).1
          have hclose : p.closeLocal write = { p with state := .CLOSING } := by
            unfold Proxy.closeLocal Proxy.close
            rw [if_pos hopen, if_pos hopen]
          rw [hclose]
          exact h.began hopen p.sinceGone hgone
      · cases hstep
        exact h.closeRemote
    · cases hstep
  | remoteClose write =>
    simp only [WebSocket.step] at hstep
    split at hstep
    · cases hstep
    · cases hstep
      have hclosed : Closing { p with remote := .closed, gone := true } :=
        ⟨⟨nofun, nofun, fun _ => rfl⟩, h.once, fun _ => .inr (.inl rfl), h.ending, h.ended, h.finished,
          h.gone⟩
      exact hclosed.lost write
  | remoteError write =>
    simp only [WebSocket.step, Option.some.injEq] at hstep
    exact hstep ▸ h.lost write
  | connected interrupted write =>
    simp only [WebSocket.step] at hstep
    split at hstep
    · next hpc =>
      have hopen := h.not_closed (.inl hpc.1)
      change if interrupted ∨ p.remote ≠ .isOpen then p.state = .CLOSING else p.state = .OPEN
        at hgood
      split at hstep
      · next hfailed =>
        rw [if_pos hfailed] at hgood
        obtain ⟨hdone, hok⟩ := done_close write h.recorded hgood
        cases hstep
        rw [hok, if_pos (.inr rfl)]
        exact h.done hopen (hdone.goto .head) (.inl rfl) false
      · next hconnected =>
        rw [if_neg hconnected] at hgood
        cases hstep
        exact h.onward hgood nofun
    · cases hstep
  | check =>
    simp only [WebSocket.step] at hstep
    split at hstep
    · next hpc =>
      cases hstep
      by_cases hopen : p.state = .OPEN
      · rw [if_pos hopen]
        exact h.onward hopen nofun
      · have hclosed : p.state = .CLOSED := by
          cases hs : p.state with
          | OPEN => exact absurd hs hopen
          | CLOSING => exact absurd hs hgood
          | CLOSED => rfl
        rw [if_neg hopen]
        refine ⟨⟨h.recorded.idle, h.recorded.closing, h.recorded.closed⟩, h.once, h.released,
          fun _ => .inr rfl, fun _ => hclosed, fun n hn => ⟨hclosed, .inr ⟨?_, rfl⟩⟩,
          fun n _ => ⟨hopen, fun _ => hclosed⟩⟩
        -- it is the first step after the one that closed the socket
        unfold Proxy.counted at hn
        cases hover : p.sinceOver with
        | none =>
          rw [hover] at hn
          cases hn
        | some m =>
          rw [hover] at hn
          cases hn
          rcases (h.finished m hover).2 with h0 | ⟨-, hended⟩
          · rw [h0]
          · rw [hpc] at hended
            cases hended
    · cases hstep
  | read incoming write =>
    simp only [WebSocket.step] at hstep
    split at hstep
    · next hpc =>
      cases hstep
      exact h.read hpc hgood
    · cases hstep

/-- **The coupling of the sockets.** In a run of good steps the sockets are coupled in every
state: the loop takes one more step at most, and the socket is closed one step after the
remote client has closed or failed.
SOURCE: WebService.kt:616-703, WebSocket.java:65-76, 120-175, 204-252 -/
theorem sockets_coupled {actions : List Action} {p : Proxy}
    (hrun : run (restrict step Good) Proxy.initial actions = some p) : Coupled 1 p := by
  have hclosing : Closing p :=
    run_restrict_invariant (fun _ _ _ h hgood hstep => h.step hgood hstep) closing_initial hrun
  exact hclosing.coupled

/-- Moonraker closes the connection and the browser answers the Close frame. -/
def remoteClosing : List Action :=
  [.remoteOpen, .connected false .ok, .check, .read (.frame .message) .ok, .check,
    .remoteClose .ok, .read (.frame .close) .ok, .check]

/-- The sockets are coupled throughout that run, which ends with the loop. -/
theorem sockets_coupled_remoteClosing :
    ∃ p, run (restrict step Good) Proxy.initial remoteClosing = some p ∧ p.pc = .ended ∧
      Coupled 1 p := by
  have hrun : (run (restrict step Good) Proxy.initial remoteClosing).any
      (fun p => decide (p.pc = .ended)) = true := by decide +kernel
  obtain ⟨p, hsome, hended⟩ := (Option.any_eq_true _ _).mp hrun
  exact ⟨p, hsome, of_decide_eq_true hended, sockets_coupled hsome⟩

/-- The browser closes: the loop ends without `onClose`, and the remote client stays open.
SOURCE: WebSocket.java:146-160, 226-247 -/
theorem sockets_not_coupled :
    ¬∃ bound, ∀ (actions : List Action) (p : Proxy),
      run step Proxy.initial actions = some p → Coupled bound p := by
  rintro ⟨bound, h⟩
  have hrun : (run step Proxy.initial [.remoteOpen, .connected false .ok, .check,
      .read (.frame .close) .ok, .check]).any
        (fun p => decide (p.pc = .ended ∧ p.state = .CLOSING)) = true := by decide +kernel
  obtain ⟨p, hsome, hp⟩ := (Option.any_eq_true _ _).mp hrun
  obtain ⟨hended, hclosing⟩ := of_decide_eq_true hp
  obtain ⟨hclosed, -, -⟩ := (h _ p hsome).ended hended
  rw [hclosing] at hclosed
  cases hclosed

end WebSocket

end Cream.Model
