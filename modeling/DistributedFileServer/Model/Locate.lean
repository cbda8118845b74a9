import DistributedFileServer.Model.Serve
import DistributedFileServer.Paths.Steps

/-!
# From filenames to files (`controller.cpp`)

The handlers append the filename of a request to the path of the shared
directory, with a separator in between and without looking at it.  The operating
system takes both separators, skips empty segments and `.`, and resolves `..`
when it opens the file.
-/

namespace DistributedFileServer

open Paths

/-- A slash or a backslash. -/
def isSeparator (byte : UInt8) : Bool :=
  byte = 47 ∨ byte = 92

/-- What one segment of a path does. -/
def step? (segment : Str) : Option (Step Str) :=
  if segment = [] ∨ segment = text "." then
    none
  else if segment = text ".." then
    some .up
  else
    some (.down segment)

/-- The steps of a path. -/
def steps (path : Str) : List (Step Str) :=
  (path.splitOnP isSeparator).filterMap step?

/-- Where a path leads from the root of its volume. -/
def resolve (path : Str) : List Str :=
  walk [] (steps path)

/-- `path(sharedDirectoryFullPath) /= filename`. -/
def appendPath (sharedDirectoryFullPath filename : Str) : Str :=
  sharedDirectoryFullPath ++ 92 :: filename

/-- Paths are split at a separator. -/
theorem splitOnP_append_cons {α : Type} (isSep : α → Bool) (front : List α) {sep : α}
    (hsep : isSep sep = true) (back : List α) :
    (front ++ sep :: back).splitOnP isSep = front.splitOnP isSep ++ back.splitOnP isSep := by
  induction front with
  | nil => simp [List.splitOnP_cons_eq_if_modifyHead, hsep]
  | cons head front ih =>
      rw [List.cons_append, List.splitOnP_cons_eq_if_modifyHead,
        List.splitOnP_cons_eq_if_modifyHead, ih]
      split_ifs
      · rfl
      · have hne := List.splitOnP_ne_nil isSep front
        cases hfront : front.splitOnP isSep with
        | nil => exact absurd hfront hne
        | cons segment segments => rfl

theorem steps_appendPath (directory filename : Str) :
    steps (appendPath directory filename) = steps directory ++ steps filename := by
  unfold steps appendPath
  rw [splitOnP_append_cons isSeparator directory (by decide), List.filterMap_append]

/-- The appended filename is resolved from the shared directory. -/
theorem resolve_appendPath (directory filename : Str) :
    resolve (appendPath directory filename) = walk (resolve directory) (steps filename) := by
  unfold resolve
  rw [steps_appendPath, walk_append]

/-- A server on a shared directory, given by its path on its volume. -/
def System.rooted (cfg : Config) (sharedDirectoryFullPath : Str)
    (fromString : Str → Option Ptree) : System (List Str) where
  cfg := cfg
  locate := fun filename => resolve (appendPath sharedDirectoryFullPath (cString filename))
  locate_cString := fun filename => by rw [cString_cString]
  fromString := fromString

theorem locate_rooted (cfg : Config) (sharedDirectoryFullPath : Str)
    (fromString : Str → Option Ptree) (filename : Str) :
    (System.rooted cfg sharedDirectoryFullPath fromString).locate filename =
      walk (resolve sharedDirectoryFullPath) (steps (cString filename)) :=
  resolve_appendPath sharedDirectoryFullPath (cString filename)

end DistributedFileServer
