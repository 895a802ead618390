import ImportSuffix.Rule.Basic

/-!
# The rules that strip the `.js` suffix

Two rules make the module paths of a TypeScript text extensionless.

* `fromClause` strips the path of every clause `from '….js'` and keeps its opening quote. When the
  clause ends an import statement it leaves the match alone: the statement is then remembered in
  the group `defer`.
* `importStatement` strips the path of every statement `import … from '….js'` and writes it with
  single quotes.

A path and a clause are any characters but quotes, so no match reaches over a third quote.
-/

namespace ImportSuffix.Rule

open Pattern

/-- The end of a quoted path with the suffix: `.js` and a quote. -/
def suffixAndQuote : Pattern :=
  seq (literal ".js") (one .quote)

/-- The word `import` as a word of its own. -/
def importWord : Pattern :=
  sequence [boundary, literal "import", boundary]

/-- An import statement up to its `from`: the word `import`, a clause without quotes and white
space. -/
def importHead : Pattern :=
  sequence [importWord, blanks, plus .lazy (one .unquoted), someBlanks]

/-- A clause `from` with a quoted path that has the suffix, and in the group `defer` the import
statement that it ends, if it ends one. -/
def fromClausePattern : Pattern :=
  sequence [
    optional .greedy (group 1 (some deferGroup) importHead),
    boundary, literal "from", someBlanks,
    group 2 (some "quote") (one .quote),
    group 3 (some "path") (star .lazy (one .unquoted)),
    suffixAndQuote]

/-- An import statement with a quoted path that has the suffix. -/
def importStatementPattern : Pattern :=
  sequence [
    importWord, blanks,
    group 1 (some "clause") (plus .lazy (one .unquoted)),
    someBlanks, literal "from", someBlanks,
    one .quote,
    group 2 (some "path") (star .lazy (one .unquoted)),
    suffixAndQuote]

/-- Strips the paths of clauses that end no import statement. -/
def fromClause : Rule where
  label := "from clause"
  pattern := fromClausePattern
  template := ⟨Template.chars "from " ++
    [.group (.name "quote"), .group (.name "path"), .group (.name "quote")]⟩

/-- Strips the paths of import statements, which get single quotes. -/
def importStatement : Rule where
  label := "import statement"
  pattern := importStatementPattern
  template := ⟨Template.chars "import " ++ [.group (.name "clause")] ++ Template.chars " from '" ++
    [.group (.name "path")] ++ Template.chars "'"⟩

/-- The rules that strip the suffix, in the order of application. -/
def suffixRules : List Rule := [fromClause, importStatement]

end ImportSuffix.Rule
