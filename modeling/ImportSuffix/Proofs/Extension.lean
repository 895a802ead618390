import ImportSuffix.Proofs.Discovered
import ImportSuffix.Proofs.LossyText
import ImportSuffix.Proofs.SuffixGlob
import ImportSuffix.Volume.Edit

/-!
# Selecting files by the ends of their names

Patterns that are a star and a text without marks select the files whose names end in one of the
texts, as the names are shown (`matchesAny_starred_iff`). For an ASCII text, such as the extensions
of the default patterns, this can be seen from the bytes of the name, whether they encode a text or
not (`matchesAny_defaultPatterns_iff`).
-/

namespace ImportSuffix

open Text (Bytes bytesOf encode decodeLossy)

namespace Glob

/-- That no character of a text has a meaning in a glob or in a path. -/
def Unmarked (text : List Char) : Prop := ∀ c ∈ text, c ∉ marks

instance (text : List Char) : Decidable (Unmarked text) :=
  decidable_of_iff (text.all fun c => !marks.contains c) (by simp [Unmarked])

theorem ascii_marks : Text.Ascii marks := by decide +kernel

/-- The encoding of a text without a mark does not have it either: an ASCII byte is an ASCII
character. -/
theorem Unmarked.code_notMem {text : List Char} (h : Unmarked text) {mark : Char}
    (hmark : mark ∈ marks) : code mark ∉ encode text := by
  have hascii := ascii_marks mark hmark
  have htoNat : (code mark).toNat = mark.toNat := by
    rw [code, UInt8.toNat_ofNat']
    omega
  intro hmem
  obtain ⟨c, hc, heq⟩ := Text.exists_of_mem_encode (by rwa [htoNat]) hmem
  obtain rfl : c = mark := Char.toNat_inj.1 (heq.trans htoNat)
  exact h c hc hmark

theorem Unmarked.isPlain {text : List Char} (h : Unmarked text) {b : UInt8}
    (hb : b ∈ encode text) : IsPlain b := by
  have hne : ∀ mark ∈ marks, b ≠ code mark := by
    rintro mark hmark rfl
    exact h.code_notMem hmark hb
  exact ⟨hne _ (by decide), hne _ (by decide), hne _ (by decide), hne _ (by decide),
    hne _ (by decide)⟩

end Glob

open Glob (Unmarked)

/-! ### Patterns -/

variable {name : Name} {literals : List String}

/-- What is shown of the name of an entry has no separator. -/
theorem Path.EntryName.separator_notMem (h : Path.EntryName name) :
    Glob.code '/' ∉ encode (decodeLossy name) :=
  Text.notMem_encode_decodeLossy (by decide) h.slash_notMem

theorem isMatch_starred_iff (hname : Path.EntryName name) {literal : String}
    (hliteral : Unmarked literal.toList) :
    Glob.isMatch (bytesOf ("*" ++ literal)) (encode (decodeLossy name)) = true ↔
      literal.toList <:+ decodeLossy name := by
  have hbytes : bytesOf ("*" ++ literal) = Glob.code '*' :: encode literal.toList := by
    rw [bytesOf, String.toList_append, Text.encode_append]
    rfl
  rw [hbytes, Glob.isMatch_star_cons_iff (fun b hb => hliteral.isPlain hb) hname.separator_notMem,
    Text.encode_suffix_encode_iff]

theorem matchesAny_starred_iff (hname : Path.EntryName name)
    (hliterals : ∀ literal ∈ literals, Unmarked literal.toList) :
    matchesAny (literals.map ("*" ++ ·)) name = true ↔
      ∃ literal ∈ literals, literal.toList <:+ decodeLossy name := by
  rw [Volume.matchesAny_iff]
  constructor
  · rintro ⟨pattern, hpattern, hmatch⟩
    obtain ⟨literal, hliteral, rfl⟩ := List.mem_map.1 hpattern
    exact ⟨literal, hliteral, (isMatch_starred_iff hname (hliterals literal hliteral)).1 hmatch⟩
  · rintro ⟨literal, hliteral, hsuffix⟩
    exact ⟨_, List.mem_map_of_mem hliteral,
      (isMatch_starred_iff hname (hliterals literal hliteral)).2 hsuffix⟩

/-- The default patterns go by the bytes of a name. -/
theorem matchesAny_defaultPatterns_iff (hname : Path.EntryName name) :
    matchesAny Config.defaultPatterns name = true ↔
      bytesOf ".ts" <:+ name ∨ bytesOf ".tsx" <:+ name := by
  have hpatterns : Config.defaultPatterns = [".ts", ".tsx"].map ("*" ++ ·) := by decide +kernel
  have hliterals : ∀ literal ∈ [".ts", ".tsx"], Unmarked literal.toList := by decide +kernel
  have hascii : Text.Ascii ".ts".toList ∧ Text.Ascii ".tsx".toList := by decide +kernel
  rw [hpatterns, matchesAny_starred_iff hname hliterals]
  simp only [List.mem_cons, List.not_mem_nil, or_false, exists_eq_or_imp, exists_eq_left]
  rw [Text.suffix_decodeLossy_iff hascii.1, Text.suffix_decodeLossy_iff hascii.2]
  rfl

/-! ### Discovery -/

namespace Volume

variable {v : Volume} {c : Config} {root : Bytes} {dirs : List Name}

/-- A file in a directory on the walk is found exactly if its name matches: no other file has its
path. -/
theorem joinAll_mem_discover_iff (h : v.FoundAt c.root dirs name) :
    Path.joinAll c.root (dirs ++ [name]) ∈ v.discover c ↔
      matchesAny c.patterns name = true := by
  rw [discover, List.mem_map]
  constructor
  · rintro ⟨names, hnames, hpath⟩
    have hjoined := names_of_mem_discoverNames hnames
    rw [hpath, Path.names_joinAll c.root h.entryName] at hjoined
    have hsame : dirs ++ [name] = names := List.append_cancel_left hjoined
    obtain ⟨dirs', name', heq, -, hmatch⟩ := mem_discoverNames.1 hnames
    obtain ⟨-, hname⟩ := List.append_inj' (hsame.trans heq) rfl
    rwa [(List.cons.inj hname).1]
  · intro hmatch
    exact ⟨_, mem_discoverNames.2 ⟨dirs, name, rfl, h, hmatch⟩, rfl⟩

/-- With patterns that are a star and a text without marks, a file in a directory on the walk is
found exactly if its name, as it is shown, ends in one of the texts; and with the default patterns,
exactly if the bytes of its name end in one of the two extensions. -/
theorem joinAll_mem_discover_starred_iff (hliterals : ∀ literal ∈ literals, Unmarked literal.toList)
    (h : v.FoundAt root dirs name) :
    (Path.joinAll root (dirs ++ [name]) ∈ v.discover ⟨root, literals.map ("*" ++ ·)⟩ ↔
      ∃ literal ∈ literals, literal.toList <:+ decodeLossy name) ∧
    (Path.joinAll root (dirs ++ [name]) ∈ v.discover (.withRoot root) ↔
      bytesOf ".ts" <:+ name ∨ bytesOf ".tsx" <:+ name) := by
  have hname : Path.EntryName name := h.entryName name (by simp)
  constructor
  · rw [← matchesAny_starred_iff hname hliterals]
    exact joinAll_mem_discover_iff (c := ⟨root, literals.map ("*" ++ ·)⟩) h
  · rw [← matchesAny_defaultPatterns_iff hname]
    exact joinAll_mem_discover_iff (c := .withRoot root) h

/-- A file with a name that has the extension at its beginning, nearly has it in the middle, and
before the end a byte that encodes nothing. -/
def nearMisses : Volume :=
  empty.putFile (bytesOf ".ts.t" ++ 0xE9 :: bytesOf ".ts") "".toUTF8

theorem joinAll_mem_discover_starred_nearMisses :
    bytesOf "./.ts.t" ++ 0xE9 :: bytesOf ".ts" ∈
        nearMisses.discover ⟨bytesOf ".", ["\uFFFD.ts", ".tsx"].map ("*" ++ ·)⟩ ∧
      bytesOf "./.ts.t" ++ 0xE9 :: bytesOf ".ts" ∈
        nearMisses.discover (.withRoot (bytesOf ".")) := by
  have hleaf :
      [bytesOf ".ts.t" ++ 0xE9 :: bytesOf ".ts"] ∈ nearMisses.leavesBelow (bytesOf ".") := by
    decide +kernel
  obtain ⟨dirs, name, heq, hfound⟩ := mem_leavesBelow.1 hleaf
  obtain ⟨rfl, hname⟩ := List.append_inj' (show [] ++ [_] = dirs ++ [name] from heq) rfl
  obtain rfl := (List.cons.inj hname).1
  have hliterals : ∀ literal ∈ ["\uFFFD.ts", ".tsx"], Unmarked literal.toList := by decide +kernel
  have h := joinAll_mem_discover_starred_iff hliterals hfound
  exact ⟨h.1.2 ⟨"\uFFFD.ts", by simp, by decide +kernel⟩, h.2.2 (.inl (by decide +kernel))⟩

end Volume

end ImportSuffix
