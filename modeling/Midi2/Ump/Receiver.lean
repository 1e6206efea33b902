import Midi2.Ump.Translator

/-!
# Receivers

What a translation preserves can be told by those who listen at its two ends. A receiver is
a client of the dispatcher that sends nothing: it has functions for the messages that matter
to it and a state, which is its view of the stream.
-/

namespace Midi2.Ump

variable {σ : Type}

/-- A receiver, given by its functions. -/
def receiver (call : Call → σ → σ) : Client Word σ where
  call := call
  flush s := (s, [])
  Idle _ := True
  flush_idle _ := rfl
  idle_call _ _ _ := trivial

/-- The state of a receiver after the words of a stream. -/
def receive (call : Call → σ → σ) (init : σ) (words : List Word) : σ :=
  ((receiver call).perWord.run ({}, init) words).1.2

/-- A receiver that is handed a packet. -/
def observe (call : Call → σ → σ) (s : σ) (p : Packet) : σ :=
  call p.message.call s

/-- Whole messages are received one after the other. -/
theorem receive_words (call : Call → σ → σ) (init : σ) (ps : List Packet) :
    receive call init (ps.flatMap Packet.words) = ps.foldl (observe call) init := by
  have hrun : ∀ (s : σ) (ps : List Packet),
      ((receiver call).perPacket.run s ps).1 = ps.foldl (observe call) s := by
    intro s ps
    induction ps generalizing s with
    | nil => rfl
    | cons p ps ih => exact ih (observe call s p)
  rw [receive, ((receiver call).run_words (s := init) trivial ps).1, hrun]

/-- The calls that a dispatcher makes for the words of a stream. -/
def calls (words : List Word) : List Call :=
  receive (fun c cs => cs ++ [c]) [] words

theorem calls_words (ps : List Packet) :
    calls (ps.flatMap Packet.words) = ps.map fun p => p.message.call := by
  have hfold : ∀ (cs : List Call) (ps : List Packet),
      ps.foldl (observe fun c cs => cs ++ [c]) cs = cs ++ ps.map fun p => p.message.call := by
    intro cs ps
    induction ps generalizing cs with
    | nil => exact (List.append_nil cs).symm
    | cons p ps ih =>
        rw [List.foldl_cons, ih, observe, List.append_assoc, List.map_cons, List.singleton_append]
  rw [calls, receive_words, hfold, List.nil_append]

namespace Translator

variable {τ : Type} (t : Translator τ)

/-- A receiver at the output of a translator sees the translated packets. -/
theorem receive_run (call : Call → σ → σ) (s : σ) (init : τ) (ps : List Packet) :
    receive call s (t.run init (ps.flatMap Packet.words)).2 =
      (t.translation.run init ps).2.foldl (observe call) s := by
  rw [(t.run_words init ps).2, receive_words]

/-- What a receiver makes of the packets that are sent for one packet. -/
theorem foldl_step (call : Call → σ → σ) (s : τ) (p : Packet) (v : σ) :
    (t.translation.step s p).2.foldl (observe call) v =
      (t.messages s p).output.foldl (fun v m => call m.call v) v := by
  have hattach := List.attach_map_subtype_val (t.messages s p).output
  calc (t.translation.step s p).2.foldl (observe call) v
      = ((t.messages s p).output.attach.map Subtype.val).foldl (fun v m => call m.call v) v := by
        simp only [translation, List.foldl_map, observe]
    _ = (t.messages s p).output.foldl (fun v m => call m.call v) v := by rw [hattach]

/-! ## One packet of a run -/

/-- What comes out for the words of `p`, after those of the packets `pre`. -/
def emit (init : τ) (pre : List Packet) (p : Packet) : List Word :=
  let s := (t.client.perWord.run ({}, ⟨init, {}⟩) (pre.flatMap Packet.words)).1
  (t.client.perWord.run s p.words).2

/-- The output of a run is what comes out for its packets. -/
theorem run_concat (init : τ) (pre : List Packet) (p : Packet) :
    (t.run init ((pre ++ [p]).flatMap Packet.words)).2 =
      (t.run init (pre.flatMap Packet.words)).2 ++ t.emit init pre p := by
  rw [List.flatMap_append, List.flatMap_singleton, run, Machine.run_append]
  rfl

/-- Equal outputs are equal packet by packet. -/
theorem emit_congr {init init' : τ} (h : ∀ ws, (t.run init ws).2 = (t.run init' ws).2)
    (pre : List Packet) (p : Packet) : t.emit init pre p = t.emit init' pre p := by
  have hall := h ((pre ++ [p]).flatMap Packet.words)
  rw [run_concat, run_concat, h (pre.flatMap Packet.words)] at hall
  exact List.append_cancel_left hall

theorem emit_eq (init : τ) (pre : List Packet) (p : Packet) :
    t.emit init pre p =
      (t.translation.step (t.translation.run init pre).1 p).2.flatMap Packet.words := by
  have h := t.run_concat init pre p
  rw [(t.run_words init (pre ++ [p])).2, (t.run_words init pre).2, Machine.run_append,
    Machine.run_singleton, List.flatMap_append] at h
  exact (List.append_cancel_left h).symm

/-- The calls at the output are those of the messages that are sent. -/
theorem calls_emit (init : τ) (pre : List Packet) (p : Packet) :
    calls (t.emit init pre p) =
      (t.messages (t.translation.run init pre).1 p).output.map Message.call := by
  have hattach := List.attach_map_subtype_val (t.messages (t.translation.run init pre).1 p).output
  rw [emit_eq, calls_words]
  calc (t.translation.step (t.translation.run init pre).1 p).2.map (fun p => p.message.call)
      = ((t.messages (t.translation.run init pre).1 p).output.attach.map Subtype.val).map
          Message.call := by
        simp only [translation, List.map_map, Function.comp_def]
    _ = _ := by rw [hattach]

end Translator

end Midi2.Ump
