import ImportSuffix.Pattern.Outlook
import ImportSuffix.Template

/-!
# Substitution rules

A rule puts a template in the place of every match of a pattern. It is applied to the segments of a
text one by one, so what it does to one match depends on nothing but that match. A match in which
the group named `defer` took part is not this rule's business and stays as it is.

Rules in a list are applied in order, each to the whole text that the one before it made.
-/

namespace ImportSuffix

/-- The name of the group by which a pattern leaves a match to another rule. -/
def deferGroup : String := "defer"

/-- A pattern, the template for its matches, and a label to tell rules apart. -/
structure Rule where
  label : String
  pattern : Pattern
  template : Template
  deriving Repr

namespace Rule

/-- What a rule makes of a match. -/
def replacement (rule : Rule) (m : Match) : List Char :=
  if m.hasGroup deferGroup then m.text else rule.template.fill m

/-- What a rule makes of a segment. -/
def replaceSegment (rule : Rule) : Segment → List Char
  | .plain c => [c]
  | .found m => rule.replacement m

/-- The text with every match of the rule replaced, on lists of characters. -/
def applyChars (rule : Rule) (text : List Char) : List Char :=
  (rule.pattern.segments text).flatMap rule.replaceSegment

/-- The text with every match of the rule replaced. -/
def apply (rule : Rule) (text : String) : String :=
  String.ofList (rule.applyChars text.toList)

@[simp] theorem toList_apply (rule : Rule) (text : String) :
    (rule.apply text).toList = rule.applyChars text.toList := by
  simp [apply]

end Rule

/-- The text after all rules, each applied to what the one before it made. -/
def applyRules (rules : List Rule) (text : String) : String :=
  rules.foldl (fun text rule => rule.apply text) text

@[simp] theorem applyRules_nil (text : String) : applyRules [] text = text := rfl

@[simp] theorem applyRules_cons (rule : Rule) (rules : List Rule) (text : String) :
    applyRules (rule :: rules) text = applyRules rules (rule.apply text) := rfl

/-- The texts after the first rule, after the second, and so on. -/
def ruleSteps : List Rule → String → List String
  | [], _ => []
  | rule :: rules, text => rule.apply text :: ruleSteps rules (rule.apply text)

/-- The last step is the result. -/
theorem getLast?_ruleSteps (rules : List Rule) (text : String) :
    ((ruleSteps rules text).getLast?).getD text = applyRules rules text := by
  induction rules generalizing text with
  | nil => rfl
  | cons rule rules ih =>
    rw [applyRules_cons, ← ih, ruleSteps]
    cases h : ruleSteps rules (rule.apply text) with
    | nil => simp
    | cons a rest => simp [List.getLast?_eq_some_getLast]

end ImportSuffix
