import SharkNetplay.Relay.CFeed
import SharkNetplay.Relay.PyFeed

/-!
# Both relays reassemble frames

What either relay passes to its `handle` is a function of the bytes of the connection, not
of the chunks in which they arrive.
-/

namespace SharkNetplay.Relay

open Lib Lib.Reassembly

theorem Py.frame_encode (f : Frame) : encode f = Py.frame f.1 f.2 := rfl

/-- Frame reassembly in both relays: independent of the chunks, exact on frames, and with
loops that end. A connection has nothing buffered at its start. -/
theorem reassembly :
    (∀ (delay autoGo : Int) outcomes seeds events c,
      let s := (Py.Server.init delay autoGo outcomes seeds).run events
      Py.serving c s = true → (s.client c).rx = [] →
        Reassembles (Py.hand c) (fun s => (s.client c).dead) (fun s => (s.client c).rx) 200
          (Py.read c) s) ∧
    (∀ (s : C.Server) c, (s.client c).dead = false → (s.client c).rx = [] →
      Reassembles (C.hand c) (fun s => (s.client c).dead) (fun s => (s.client c).rx) 200
        (C.read c) s) ∧
    (∀ (s : Py.Server) c n, (s.client c).rx.length ≤ n →
      Py.feed n c s = Py.feed (s.client c).rx.length c s) ∧
    (∀ (s : C.Server) c n, (s.client c).rx.length ≤ n →
      C.drain n c s = C.drain (s.client c).rx.length c s) ∧
    ∀ (s : C.Server) c n data, data.length ≤ n →
      C.feed n c data s = C.feed data.length c data s := by
  refine ⟨?_, ?_, fun s c n hn => Py.feed_fuel hn, fun s c n hn => C.drain_fuel hn,
    fun s c n data hn => C.feed_fuel hn⟩
  · intro delay autoGo outcomes seeds events c s hserving hrx
    simp only [Py.serving, Bool.and_eq_true, decide_eq_true_eq, Bool.not_eq_true'] at hserving
    have hsettled := Py.run_settled (Py.init_settled delay autoGo outcomes seeds) events
    exact .of_outcome fun ds => Py.read_reading ds ⟨hsettled, hserving.1⟩ hserving.2 hrx
  · intro s c hlive hrx
    exact .of_outcome fun ds => C.read_reading ds hlive hrx

theorem reassembly_fresh :
    Reassembles (Py.hand 0) (fun s => (s.client 0).dead) (fun s => (s.client 0).rx) 200
      (Py.read 0) ((Py.Server.init 2 0 [] []).run [.accept 1]) ∧
    Reassembles (C.hand 0) (fun s => (s.client 0).dead) (fun s => (s.client 0).rx) 200
      (C.read 0) ((C.Server.init .v2 2 2 0 [] []).run [.accept 1]) :=
  ⟨reassembly.1 2 0 [] [] [.accept 1] 0 (by decide) (by decide),
    reassembly.2.1 _ 0 (by decide) (by decide)⟩

set_option maxRecDepth 8000 in
/-- A new connection to either relay sends BYE and PING: only BYE is passed on. A chunk of
201 zeros stays where it is when the first of them ends the connection. -/
theorem reassembly_cut :
    (∃ fs : List Frame, (∀ f ∈ fs, f.2.length + 1 ≤ 200) ∧
      (Py.read 0 [(fs.map encode).flatten]
        ((Py.Server.init 2 0 [] []).run [.accept 1])).1.1 ≠ fs ∧
      (C.read 0 [(fs.map encode).flatten]
        ((C.Server.init .v2 2 2 0 [] []).run [.accept 1])).1.1 ≠ fs) ∧
    200 < ((Py.read 0 [List.replicate 201 0]
      ((Py.Server.init 2 0 [] []).run [.accept 1])).2.client 0).rx.length :=
  ⟨⟨[(tBye, []), (tPing, [])], by decide, by decide, by decide⟩, by decide⟩

end SharkNetplay.Relay
