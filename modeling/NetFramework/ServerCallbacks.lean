/-
The callbacks of `Server::poll` in both of its loops.

- `callback_protocol`: each loop serves its connections as `Served` says in exactly the runs in which its guard holds.
  The loop around `select` needs that no `recv` returns an error; the one around `WSAPoll` that every `recv` returns data,
  and that no hang-up is found for a descriptor whose connection is gone.
- `callbacks_broken`: both guards can fail.
-/
import NetFramework.SelectCallbacks
import NetFramework.PollCallbacks

namespace NetFramework

open Transition

/-- **The callback protocol.** In every run of the loop around `select` the callbacks are as they should be in every
state if and only if no `recv` returns an error; in every run of the loop around `WSAPoll`, if and only if every `recv`
returns data and every hang-up is found for a connection that is still there. -/
theorem callback_protocol (cfg : ServerConfig) (ops : List SelectServer.Op) (fin : SelectServer)
    (h : run (SelectServer.step cfg) (.start cfg) ops = some fin) (complete : Bytes → Bool) (listenSocket : ℕ)
    (pollOps : List PollServer.Op) (pollFin : PollServer)
    (hpoll : run (PollServer.step complete) (.start listenSocket) pollOps = some pollFin) :
    (Along (SelectServer.step cfg) SelectServer.RecvSucceeds (.start cfg) ops ↔
        Always (SelectServer.step cfg) SelectServer.CallbacksServed (.start cfg) ops) ∧
      (Along (PollServer.step complete) PollServer.ConnectionsStay (.start listenSocket) pollOps ↔
        Always (PollServer.step complete) PollServer.CallbacksServed (.start listenSocket) pollOps) :=
  ⟨SelectServer.select_served_iff h, PollServer.poll_served_iff hpoll⟩

namespace PollServer

/-- the first iteration, in which a client connects on descriptor 4 -/
def connectRound : List Op :=
  [.poll (some [⟨true, false⟩]), .incoming (some 4) 0 ⟨false, false⟩, .pass, .pass, .pass, .flush (some []), .pass]

/-- an iteration in which only the client has something to report: `revents` are its flags and `served` what is done -/
def clientRound (revents : Revents) (served : List Op) : List Op :=
  [Op.poll (some [⟨false, false⟩, revents]), Op.incoming none 0 ⟨false, false⟩, Op.pass] ++ served ++
    [Op.pass, Op.flush (some []), Op.pass]

end PollServer

/-- in both loops a client connects, sends `B` and hangs up -/
theorem callback_protocol_visit :
    Always (SelectServer.step ⟨3, 8, fun _ => true, by decide⟩) SelectServer.CallbacksServed
        (.start ⟨3, 8, fun _ => true, by decide⟩)
        (List.flatten [[.swap, .select (some ({3}, ∅))], SelectServer.idle 3, [.accept (some 4) 0, .write],
          SelectServer.idle 4, [.pass, .swap, .select (some ({4}, ∅))], SelectServer.idle 4,
          [.recv (.bytes [0x42]), .write], SelectServer.idle 3, [.pass, .swap, .select (some ({4}, ∅))],
          SelectServer.idle 4, [.recv (.bytes []), .callbackDone, .write]]) ∧
      Always (PollServer.step fun _ => true) PollServer.CallbacksServed (.start 3)
        (PollServer.connectRound ++ PollServer.clientRound ⟨true, false⟩ [.recv (.bytes [0x42])] ++
          PollServer.clientRound ⟨false, true⟩ [.hangUp, .callbackDone]) :=
  ⟨(callback_protocol ⟨3, 8, fun _ => true, by decide⟩ _ _ rfl (fun _ => true) 3 [] _ rfl).1.1 (by decide),
    (callback_protocol ⟨3, 8, fun _ => true, by decide⟩ [] _ rfl (fun _ => true) 3 _ _ rfl).2.1 (by decide)⟩

/-- an iteration in which the `recv` of the client on descriptor 4 returns an error -/
def SelectServer.errorRound : List SelectServer.Op :=
  [Op.swap, Op.select (some ({4}, ∅))] ++ (idle 4 ++ [Op.recv .error])

/-- **Callbacks broken.** In the loop around `select` an error of `recv` is thrown out of `poll`, and nobody is told that
the connection is gone. In the loop around `WSAPoll` a client that has hung up is reported again by the next `WSAPoll`,
and the Disconnected callback is made for a null pointer. -/
theorem callbacks_broken :
    (∃ s, run (SelectServer.step SelectServer.exampleConfig) (.start SelectServer.exampleConfig)
        (SelectServer.connectRound ++ SelectServer.errorRound) = some s ∧
      s.pc = .thrown ∧ s.callbacks = [connectedCallback (some 0)] ∧ s.reported = [0] ∧
        ¬ SelectServer.CallbacksServed s) ∧
    (∃ s, run (PollServer.step fun _ => true) (.start 3)
        (PollServer.connectRound ++ PollServer.clientRound ⟨false, true⟩ [.hangUp, .callbackDone] ++
          PollServer.clientRound ⟨false, true⟩ [.hangUp, .callbackDone]) = some s ∧
      s.callbacks = [connectedCallback (some 0), disconnectedCallback (some 0), disconnectedCallback none] ∧
        ¬ PollServer.CallbacksServed s) := by
  refine ⟨⟨_, run_append_some SelectServer.run_connectRound (run_append_some rfl (run_append_some
    (SelectServer.run_idle_example rfl rfl rfl (by decide) (by decide)) rfl)), rfl, rfl, rfl, ?_⟩, _, rfl, rfl, ?_⟩
  · intro hserved
    exact hserved.running rfl
  · intro hserved
    exact absurd hserved.no_null (by decide)

end NetFramework
