import JetCore.Ref.FaultyWorld

/-!
# What a call leaves beside the tree

The marks, the publishes, the settlements and the log are each written by calls
of their own. So a call on the filesystem leaves them all as they are, whether
it goes through or fails (`perform_beside`, `performFaulty_beside`).
-/

namespace JetCore

open Lib

/-- The parts of the world that the operating system has no part in. -/
structure Beside where
  marked : List PosixPath
  published : List PublishArgs
  settled : List Settlement
  log : List FileLogLine

def FileWorld.beside (s : FileWorld) : Beside where
  marked := s.marked
  published := s.published
  settled := s.settled
  log := s.log

/-- What a call that goes through writes there. -/
def FileAct.records : FileAct → Beside → Beside
  | .mark p, b => { b with marked := b.marked ++ [p] }
  | .log line, b => { b with log := b.log ++ [line] }
  | .publish args, b => { b with published := b.published ++ [args] }
  | .ack, b => { b with settled := b.settled ++ [.acked] }
  | .nak, b => { b with settled := b.settled ++ [.nakked] }
  | _, b => b

/-- Whatever a call on an encoded path leaves, it leaves if there is none. -/
theorem onPath_leaves {α β : Type} {g : FileWorld → β} {s : FileWorld}
    {p : PosixPath} {f : Location → Except Exn α × FileWorld}
    (hf : ∀ path, g (f path).2 = g s) : g (s.onPath p f).2 = g s := by
  rw [FileWorld.onPath]
  cases p.encode with
  | error e => rfl
  | ok path => exact hf path

theorem look_world {α β : Type} (s : FileWorld) (x : Except Errno α)
    (f : α → β) : (s.look x f).2 = s := by
  cases x with
  | error e => rfl
  | ok a => rfl

theorem change_beside {α : Type} (s : FileWorld)
    (x : Except Errno (Location × Fs FileName)) (f : Location → α) :
    (s.change x f).2.beside = s.beside := by
  cases x with
  | error e => rfl
  | ok a => rfl

variable (depth : ℕ)

theorem perform_beside (a : FileAct) (s : FileWorld) :
    (a.perform depth s).2.beside = a.records s.beside := by
  cases a with
  | iterdir p =>
      exact onPath_leaves fun _ => congrArg _ (look_world s _ _)
  | size p => exact onPath_leaves fun _ => congrArg _ (look_world s _ _)
  | mkdir p => exact onPath_leaves fun _ => rfl
  | openWrite p => exact onPath_leaves fun _ => change_beside s _ _
  | unlink p => exact onPath_leaves fun _ => change_beside s _ _
  | read p =>
      refine onPath_leaves fun path => ?_
      cases s.fs.read path with
      | error e => rfl
      | ok found => rfl
  | _ => rfl

theorem leaves_beside (gets : ℕ) (a : FileAct) (s : FileWorld) :
    (a.leaves depth gets s).beside = s.beside := by
  cases a with
  | mkdir p =>
      exact perform_beside depth (.mkdir { p with parts := p.parts.take gets }) s
  | write file content =>
      exact perform_beside depth (.write file (content.take gets)) s
  | _ => rfl

theorem records_reachesSystem {a : FileAct} (ha : a.reachesSystem = true)
    (b : Beside) : a.records b = b := by
  cases a with
  | mark p => cases ha
  | log line => cases ha
  | publish args => cases ha
  | ack => cases ha
  | nak => cases ha
  | _ => rfl

theorem performUnless_beside (fault : Option Errno) (gets : ℕ) (a : FileAct)
    (s : FileWorld) : (a.performUnless fault depth gets s).2.beside =
      a.records s.beside := by
  rw [FileAct.performUnless.eq_def]
  split
  · split
    · next ha =>
        rw [records_reachesSystem ha]
        exact leaves_beside depth gets a s
    · exact perform_beside depth a s
  · exact perform_beside depth a s

theorem performFaulty_beside (faults : Faults) (a : FileAct)
    (s : FaultyWorld) : (a.performFaulty faults depth s).2.world.beside =
      a.records s.world.beside := by
  cases a with
  | resolve p => rfl
  | _ => exact performUnless_beside depth _ _ _ _

/-- A call publishes nothing, or is the publish. -/
theorem records_published {a : FileAct} {b b' : Beside}
    (h : b' = a.records b) : b'.published = b.published ∨
      ∃ args, a = .publish args ∧ b'.published = b.published ++ [args] := by
  subst h
  cases a with
  | publish args => exact .inr ⟨args, rfl, rfl⟩
  | _ => exact .inl rfl

end JetCore
