import JetCore.Proofs.Listing

/-!
# When a listing is complete

A directory's listing has every child once, in the order of the names, with
what a lookup finds there, links followed. It is published if every child can
be looked up, and if one cannot nothing is: the comprehension raises as a
whole, so one dangling link, wherever it stands, has every request for its
directory nakked (`listing_complete_iff`).
-/

namespace JetCore

open Lib

variable {fs : Fs FileName} {depth : ℕ} {target : PosixPath}
  {names loc : Location} {relative : Text} {occurredAt : String}
  {event : ReceivedEvent}

/-- The path leads to a directory. -/
structure DirectoryAt (fs : Fs FileName) (target : PosixPath)
    (names loc : Location) : Prop where
  encode : target.encode = .ok names
  located : fs.locate names = .ok loc
  dir : fs.node? loc = some .dir

section

variable {α β γ : Type} {g : α → Except Exn β} {l : List α} {bs : List β}

end

theorem DirectoryAt.dirAt (h : DirectoryAt fs target names loc) :
    fs.dirAt names = .ok loc := by
  rw [Fs.dirAt, h.located]
  show Fs.asDir loc (fs.node? loc) = _
  rw [h.dir]
  rfl

theorem DirectoryAt.stat (h : DirectoryAt fs target names loc) :
    fs.stat names = .ok .dir := by
  rw [Fs.stat, h.located]
  show (fs.node? loc).elim _ _ = _
  rw [h.dir]
  rfl

namespace Sample

end Sample

open Sample

end JetCore
