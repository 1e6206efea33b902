import Midi2.Lib.Sessions
import Midi2.Ump.Framing

/-!
# Sessions of the dispatcher

`reset()` in the middle of a message drops the words that have been read of it. The next word is the
first of a message, and no function is ever called with words from both sides of a `reset()`
(`run_restarting`).
-/

namespace Midi2.Ump.UmpDispatcher

/-- `reset()`. -/
def reset (_ : UmpDispatcher) : UmpDispatcher where
  message _ := 0
  pos := 0

/-- Words, and calls of `reset()`. -/
def restarting : Machine (Word ⊕ Unit) Call UmpDispatcher :=
  machine.restartable fun _ => reset

/-- The words before, between and after the calls of `reset()`. -/
def betweenResets (xs : List (Word ⊕ Unit)) : List (List Word) :=
  (Machine.segments xs).1 :: (Machine.segments xs).2.map Prod.snd

theorem forgets : machine.Forgets (fun (_ : Unit) => reset) (fun _ => {}) fun _ => True where
  step _ h := h
  restarted _ _ h := h
  same _ _ _ _ := rfl

theorem run_restarting (xs : List (Word ⊕ Unit)) :
    (restarting.run {} xs).2 =
      (betweenResets xs).flatMap fun ws => (framesOf ws).map Message.call := by
  rw [restarting, forgets.run_segments trivial, betweenResets, List.flatMap_cons,
    List.flatMap_map, (machine_run _).2]
  exact congrArg (_ ++ ·) (List.flatMap_congr fun x _ => (machine_run x.2).2)

end Midi2.Ump.UmpDispatcher
