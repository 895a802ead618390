import ImportSuffix.Config.Basic
import ImportSuffix.Json.Reader

/-!
# Reading a configuration

A configuration is written as an object with the members `root` and `patterns`, or as an array of
these two; what is missing takes its default. Other members are skipped, whatever their values, and
a member given twice is a mismatch as soon as its second key has been read. The first flaw in
reading order is the one that is told.
-/

namespace ImportSuffix.Config

open Json

/-- The members that have been read. -/
structure Draft where
  root : Option String
  patterns : Option (List String)
  deriving Repr, DecidableEq

/-- The configuration that a draft stands for. -/
def Draft.finish (d : Draft) : Config :=
  ⟨Text.bytesOf (d.root.getD defaultRoot), d.patterns.getD defaultPatterns⟩

/-! ### Entries of arrays -/

/-- Whether an array goes on: the text at its next entry, or nothing at its end, which is left to be
read. A comma stands before every entry but the first. -/
def nextEntry (isFirst : Bool) (text : List Char) : Except Flaw (Option (List Char)) :=
  match skipGap text with
  | [] => .error .unfinished
  | ']' :: _ => .ok none
  | c :: rest =>
    if isFirst then .ok (some (c :: rest))
    else if c = ',' then
      match skipGap rest with
      | [] => .error .unfinished
      | ']' :: _ => .error .malformed
      | entry => .ok (some entry)
    else .error .malformed

/-- The end of an array of which enough has been read. -/
def endArray (text : List Char) : Except Flaw (List Char) := expect ']' text

/-- The texts of an array up to its end, which is left to be read. -/
def readTexts : Nat → Bool → List Char → Except Flaw (List String × List Char)
  | 0, _, _ => .error .unfinished
  | fuel + 1, isFirst, text => do
    match ← nextEntry isFirst text with
    | none => .ok ([], text)
    | some entry =>
      let (s, rest) ← readWantedText entry
      let (texts, rest) ← readTexts fuel false rest
      .ok (s :: texts, rest)

/-- An array of texts. -/
def readPatterns (text : List Char) : Except Flaw (List String × List Char) :=
  match skipGap text with
  | '[' :: rest => do
    let (texts, rest) ← readTexts (rest.length + 1) true rest
    .ok (texts, ← endArray rest)
  | other => .error (mismatchAt other)

/-! ### The two forms -/

/-- The two parts in an array, each of which may be missing from the end. -/
def readParts (text : List Char) : Except Flaw (Draft × List Char) := do
  match ← nextEntry true text with
  | none => .ok (⟨none, none⟩, text)
  | some entry =>
    let (root, rest) ← readWantedText entry
    match ← nextEntry false rest with
    | none => .ok (⟨some root, none⟩, rest)
    | some entry =>
      let (patterns, rest) ← readPatterns entry
      .ok (⟨some root, some patterns⟩, rest)

/-- Whether an object goes on: the text after the opening quote of its next key, or nothing at its
end, which is left to be read. A comma stands before every member but the first. -/
def nextMember (isFirst : Bool) (text : List Char) : Except Flaw (Option (List Char)) :=
  match skipGap text with
  | [] => .error .unfinished
  | '\x7d' :: _ => .ok none
  | c :: rest =>
    if isFirst then (expect '"' (c :: rest)).map some
    else if c = ',' then (expect '"' rest).map some
    else .error .malformed

/-- The value of the member with a key, put into the draft. -/
def readMember (d : Draft) (key : String) (text : List Char) : Except Flaw (Draft × List Char) :=
  if key = "root" then
    if d.root.isSome then .error .mismatch
    else do
      let (root, rest) ← readWantedText (← expect ':' text)
      .ok ({ d with root := some root }, rest)
  else if key = "patterns" then
    if d.patterns.isSome then .error .mismatch
    else do
      let (patterns, rest) ← readPatterns (← expect ':' text)
      .ok ({ d with patterns := some patterns }, rest)
  else do .ok (d, ← skipValue (← expect ':' text))

/-- The members of an object up to its end, which is left to be read. -/
def readMembers : Nat → Bool → Draft → List Char → Except Flaw (Draft × List Char)
  | 0, _, _, _ => .error .unfinished
  | fuel + 1, isFirst, d, text => do
    match ← nextMember isFirst text with
    | none => .ok (d, text)
    | some rest =>
      let (key, rest) ← readText rest
      let (d, rest) ← readMember d key rest
      readMembers fuel false d rest

/-- A configuration at the beginning of a text. -/
def readDraft (text : List Char) : Except Flaw (Draft × List Char) :=
  match skipGap text with
  | '[' :: rest => do
    let (d, rest) ← readParts rest
    .ok (d, ← endArray rest)
  | '\x7b' :: rest => do
    let (d, rest) ← readMembers (rest.length + 1) true ⟨none, none⟩ rest
    .ok (d, ← expect '\x7d' rest)
  | other => .error (mismatchAt other)

/-- The configuration that a text is the written form of, or the first flaw of the text. Nothing but
white space may stand after it. -/
def parse (text : String) : Except Flaw Config := do
  let (d, rest) ← readDraft text.toList
  match skipGap rest with
  | [] => .ok d.finish
  | _ :: _ => .error .malformed

end ImportSuffix.Config
