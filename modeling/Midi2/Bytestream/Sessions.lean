import Midi2.Bytestream.Capacity
import Midi2.Bytestream.Grammar
import Midi2.Lib.Sessions

/-!
# Sessions of `to_ump`

`reset()` and `set_group()` may be called between any two bytes: in a message of which some bytes
are missing, inside of a system exclusive message, after a status byte that is still valid. All of
this is forgotten (`forgets`), and the bytes until the next such call are translated as by a new
translator for the group. After `reset()` that is group 0, whatever the constructor was given.

No call leaves a part of a message in the words that came out. So the functions that a dispatcher
calls for them are those for the messages of the segments (`calls_session`).
-/

namespace Midi2.Bytestream.ToUmp

open Adt Ump

/-- The calls that lose what is in flight. -/
inductive Restart where
  | reset
  | setGroup (group : Nat)

/-- The call. -/
def Restart.apply : Restart → Context State (Fifo Word 2) → Context State (Fifo Word 2)
  | .reset => ToUmp.reset
  | .setGroup group => ToUmp.setGroup group

/-- The group that messages have after it. -/
def Restart.group : Restart → Nat
  | .reset => 0
  | .setGroup group => group

/-- Bytes, with the output drained after each, and restarts. -/
def restarting : Machine (Byte ⊕ Restart) Word (Context State (Fifo Word 2)) :=
  perByte.restartable Restart.apply

/-- The segments of a session that begins on group `g`, each with the group that it is on. -/
def onGroups (g : Nat) (xs : List (Byte ⊕ Restart)) : List (Nat × List Byte) :=
  (g, (Machine.segments xs).1) :: (Machine.segments xs).2.map fun x => (x.1.group, x.2)

theorem restart_drained (k : Restart) {c : Context State (Fifo Word 2)} (h : c.output.Holds []) :
    Drained (k.apply c) (.create k.group) := by
  cases k with
  | reset => exact ⟨rfl, h.clear⟩
  | setGroup group => exact ⟨rfl, h.clear⟩

/-- What came before a restart does not show. -/
theorem forgets : perByte.Forgets Restart.apply (fun k => ⟨.create k.group, {}⟩)
    fun c => c.output.Holds [] where
  step b h := (perByte_step ⟨rfl, h⟩ b).1.2
  restarted k _ h := (restart_drained k h).2
  same k c h bytes := by
    have hrestart := (refines.run bytes (restart_drained k h)).2
    have hnew : Drained ⟨.create k.group, {}⟩ (.create k.group) := ⟨rfl, Fifo.holds_nil⟩
    rw [List.flatMap_singleton'] at hrestart
    rw [hrestart, ← (refines.run bytes hnew).2, List.flatMap_singleton']

/-- The words of a session are those of new translators for its segments. -/
theorem run_restarting (g : Nat) (xs : List (Byte ⊕ Restart)) :
    (restarting.run ⟨.create g, {}⟩ xs).2 =
      (onGroups g xs).flatMap fun x => run (.create x.1) x.2 := by
  rw [restarting, forgets.run_segments Fifo.holds_nil, onGroups, List.flatMap_cons,
    List.flatMap_map]
  rfl

theorem group_of_mem_onGroups {g : Nat} (hg : g < 2 ^ 4) {xs : List (Byte ⊕ Restart)}
    (hxs : ∀ k : Restart, .inr k ∈ xs → k.group < 2 ^ 4) :
    ∀ x ∈ onGroups g xs, x.1 < 2 ^ 4 := by
  intro x hx
  rcases List.mem_cons.1 hx with rfl | hx
  · exact hg
  · obtain ⟨y, hy, rfl⟩ := List.mem_map.1 hx
    exact hxs y.1 (Machine.mem_of_mem_segments hy)

/-- A dispatcher that gets the words of a session calls the functions for the messages of its
segments, one segment after the other, with messages of the group that the segment is on. There
is a function for each of them. -/
theorem calls_session {g : Nat} (hg : g < 2 ^ 4) {xs : List (Byte ⊕ Restart)}
    (hxs : ∀ k : Restart, .inr k ∈ xs → k.group < 2 ^ 4) :
    (UmpDispatcher.machine.run {} (restarting.run ⟨.create g, {}⟩ xs).2).2 =
        (onGroups g xs).flatMap (fun x => (framesOf (run (.create x.1) x.2)).map Message.call) ∧
      ∀ x ∈ onGroups g xs, ∀ m ∈ framesOf (run (.create x.1) x.2),
        m.get .group = x.1 ∧ m.call.callback ≠ .unknown := by
  have hgroups := group_of_mem_onGroups hg hxs
  constructor
  · rw [run_restarting, (UmpDispatcher.machine_run _).2,
      framesOf_flatMap fun x hx => (toUmp_wellFormed (hgroups x hx) x.2).parses, List.map_flatMap]
  · intro x hx m hm
    rw [← message_packetsOf] at hm
    obtain ⟨p, hp, rfl⟩ := List.mem_map.1 hm
    have hproper := (toUmp_wellFormed (hgroups x hx) x.2).proper p hp
    refine ⟨hproper.group, ?_⟩
    rw [ne_eq, Message.unknown_iff, not_not]
    exact hproper.known

/-- A note that `set_group()` cuts, a system exclusive message that `reset()` cuts, and a data byte
without a status after it. -/
theorem calls_session_cut :
    (UmpDispatcher.machine.run {} (restarting.run ⟨.create 5, {}⟩
      ([.inl 0x90, .inl 0x3C, .inr (.setGroup 3), .inl 0x40, .inl 0xC1, .inl 0x07,
        .inl 0xF0, .inl 0x01, .inr .reset, .inl 0x02, .inl 0xF8] :
          List (Byte ⊕ Restart))).2).2.map (fun c => (c.callback, c.message.get .group)) =
      [(.m1cvm .programChange, 3), (.system .timingClock, 0)] := by
  rw [(calls_session (by decide) (by simp [Restart.group])).1]
  decide +kernel

end Midi2.Bytestream.ToUmp
