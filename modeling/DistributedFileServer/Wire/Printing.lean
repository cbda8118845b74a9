import DistributedFileServer.Model.JsonMessages
import Mathlib.Algebra.Ring.Nat
import Mathlib.Tactic.SplitIfs

/-!
# The length of a printed message

A request is a part of its tree, and a tree is printed with a few bytes for each
byte of its texts.  The printer of this file prints what `write_json` prints for
the trees of the server.
-/

namespace DistributedFileServer

/-! ## The texts of a message -/

/-- The bytes of the texts of a tree. -/
def Ptree.size (tree : Ptree) : Nat :=
  (tree.name.getD []).length + (tree.transactionId.getD []).length +
    (tree.filename.getD []).length + (tree.data.getD []).length

/-- The bytes of the texts of a request. -/
def Request.size : Request → Nat
  | .read transactionId filename => transactionId.length + filename.length
  | .write transactionId filename data => transactionId.length + filename.length + data.length
  | .prepare transactionId => transactionId.length
  | .globalCommit transactionId => transactionId.length
  | .globalAbort transactionId => transactionId.length
  | .unsupported transactionId => transactionId.length

private theorem bind_eq_ok {α β : Type} {first : Except Exception α}
    {second : α → Except Exception β} {result : β} (h : first >>= second = .ok result) :
    ∃ value, first = .ok value ∧ second value = .ok result := by
  cases first with
  | error e => cases h
  | ok value => exact ⟨value, rfl, h⟩

theorem get_ok {tree : Ptree} {key : Key} {value : Str} (h : tree.get key = .ok value) :
    tree.lookup key = some value := by
  unfold Ptree.get at h
  split at h
  · next found hlookup =>
      obtain rfl := Except.ok.inj h
      exact hlookup
  · cases h

/-- The texts of a request are texts of its tree. -/
theorem size_ofPtree {tree : Ptree} {request : Request} (h : Request.ofPtree tree = .ok request) :
    request.size ≤ tree.size := by
  unfold Request.ofPtree at h
  obtain ⟨name, -, h⟩ := bind_eq_ok h
  obtain ⟨transactionId, htransaction, h⟩ := bind_eq_ok h
  replace htransaction : tree.transactionId = some transactionId := get_ok htransaction
  unfold Ptree.size
  rw [htransaction]
  split_ifs at h
  · obtain ⟨filename, hfilename, h⟩ := bind_eq_ok h
    replace hfilename : tree.filename = some filename := get_ok hfilename
    obtain rfl := Except.ok.inj h
    simp only [hfilename, Request.size, Option.getD_some]
    omega
  · obtain ⟨filename, hfilename, h⟩ := bind_eq_ok h
    obtain ⟨data, hdata, h⟩ := bind_eq_ok h
    replace hfilename : tree.filename = some filename := get_ok hfilename
    replace hdata : tree.data = some data := get_ok hdata
    obtain rfl := Except.ok.inj h
    simp only [hfilename, hdata, Request.size, Option.getD_some]
    omega
  all_goals
    obtain rfl := Except.ok.inj h
    simp only [Request.size, Option.getD_some]
    omega

theorem size_makeReadResponseMessage (transactionId filename fileContent : Str) :
    (makeReadResponseMessage transactionId filename fileContent).size =
      13 + transactionId.length + filename.length + fileContent.length := by
  have hname : msgReadResponse.length = 13 := rfl
  simp [makeReadResponseMessage, Ptree.size, hname]

theorem size_toPtree_write (transactionId filename data : Str) :
    (Request.write transactionId filename data).toPtree.size =
      5 + transactionId.length + filename.length + data.length := by
  have hname : msgWrite.length = 5 := rfl
  simp [Request.toPtree, Ptree.size, hname]

theorem size_makeSimpleMessage (messageName transactionId : Str) :
    (makeSimpleMessage messageName transactionId).size =
      messageName.length + transactionId.length := by
  simp [makeSimpleMessage, Ptree.size]

/-! ## The printer -/

/-- The letters of the short escape sequences: `b`, `t`, `n`, `f`, `r`, the quote,
the slash and the backslash. -/
def shortEscapes : List (UInt8 × UInt8) :=
  [(8, 98), (9, 116), (10, 110), (12, 102), (13, 114), (34, 34), (47, 47), (92, 92)]

def hexDigit (n : UInt8) : UInt8 :=
  if n < 10 then 48 + n else 55 + n

/-- How a byte is printed inside a JSON string. -/
def escape (byte : UInt8) : Str :=
  match shortEscapes.lookup byte with
  | some letter => text "\\" ++ [letter]
  | none =>
      if byte < 32 then
        text "\\u00" ++ [hexDigit (byte / 16), hexDigit (byte % 16)]
      else
        [byte]

/-- The line of a key. -/
def printField (key : Key) : Option Str → List Str
  | none => []
  | some value =>
      [text "    \"" ++ key.path ++ text "\": \"" ++ value.flatMap escape ++ text "\""]

/-- Lines with a comma after each but the last. -/
def printLines : List Str → Str
  | [] => []
  | [line] => line ++ text "\n"
  | line :: lines => line ++ text ",\n" ++ printLines lines

/-- What `write_json` prints. -/
def writeJson (tree : Ptree) : Str :=
  text "\x7b\n" ++
    printLines (printField .name tree.name ++ printField .transactionId tree.transactionId ++
      printField .filename tree.filename ++ printField .data tree.data) ++
    text "\x7d\n"

theorem length_escape_le (byte : UInt8) : (escape byte).length ≤ 6 := by
  unfold escape
  split
  · show 2 ≤ 6
    omega
  · split
    · exact Nat.le_refl 6
    · show 1 ≤ 6
      omega

theorem length_flatMap_escape_le (value : Str) :
    (value.flatMap escape).length ≤ 6 * value.length := by
  induction value with
  | nil => exact Nat.le_refl 0
  | cons byte value ih =>
      have hbyte := length_escape_le byte
      rw [List.flatMap_cons, List.length_append, List.length_cons]
      omega

theorem length_printLines_le (lines : List Str) :
    (printLines lines).length ≤ (lines.map fun line => line.length + 2).sum := by
  induction lines with
  | nil => exact Nat.le_refl 0
  | cons line lines ih =>
      have hbreak : (text "\n").length = 1 := rfl
      have hcomma : (text ",\n").length = 2 := rfl
      cases lines with
      | nil =>
          rw [printLines, List.length_append, hbreak, List.map_singleton, List.sum_singleton]
          omega
      | cons next lines =>
          rw [printLines, List.length_append, List.length_append, hcomma, List.map_cons,
            List.sum_cons]
          · omega
          · nofun

theorem sum_printField_le (key : Key) (value : Option Str) :
    ((printField key value).map fun line => line.length + 2).sum ≤
      key.path.length + 6 * (value.getD []).length + 12 := by
  cases value with
  | none => exact Nat.zero_le _
  | some value =>
      have hvalue := length_flatMap_escape_le value
      have hopen : (text "    \"").length = 5 := rfl
      have hcolon : (text "\": \"").length = 4 := rfl
      have hclose : (text "\"").length = 1 := rfl
      simp only [printField, List.map_singleton, List.sum_singleton, List.length_append, hopen,
        hcolon, hclose, Option.getD_some]
      omega

theorem length_writeJson_le (tree : Ptree) : (writeJson tree).length ≤ 6 * tree.size + 100 := by
  have hlines := length_printLines_le
    (printField .name tree.name ++ printField .transactionId tree.transactionId ++
      printField .filename tree.filename ++ printField .data tree.data)
  rw [List.map_append, List.map_append, List.map_append, List.sum_append, List.sum_append,
    List.sum_append] at hlines
  have hname := sum_printField_le .name tree.name
  have htransaction := sum_printField_le .transactionId tree.transactionId
  have hfilename := sum_printField_le .filename tree.filename
  have hdata := sum_printField_le .data tree.data
  have hpaths : Key.name.path.length + Key.transactionId.path.length +
      Key.filename.path.length + Key.data.path.length = 30 := rfl
  have hopen : (text "\x7b\n").length = 2 := rfl
  have hclose : (text "\x7d\n").length = 2 := rfl
  unfold writeJson Ptree.size
  rw [List.length_append, List.length_append, hopen, hclose]
  omega

example : writeJson (makeWriteResponseMessage (text "a/b")) =
    text "\x7b\n    \"name\": \"write_response\",\n    \"transaction_id\": \"a\\/b\"\n\x7d\n" := by
  decide

theorem length_flatMap_replicate (count : Nat) (byte : UInt8) :
    ((List.replicate count byte).flatMap escape).length = count * (escape byte).length := by
  induction count with
  | zero => simp
  | succ count ih =>
      rw [List.replicate_succ, List.flatMap_cons, List.length_append, ih, Nat.succ_mul]
      omega

end DistributedFileServer
