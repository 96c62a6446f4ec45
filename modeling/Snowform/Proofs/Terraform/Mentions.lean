import Snowform.Proofs.Ddl.QuotedStatements
import Snowform.Proofs.Text.Searching
import Snowform.Proofs.Text.Uppercase
import Snowform.Terraform.Reference

/-!
# Mentions of quoted names

A query that selects from one table mentions that table and nothing else.
The query is searched in capitals, so that the names in it are the capitals
of those that were written, and quotes that are written twice would be taken
for the end of one name and the start of another.
-/

namespace Snowform

open Text Lexical

namespace Terraform

/-! ## A quoted name in a query -/

theorem afterPart?_quotedName {name : Text} (noQuote : '"' ∉ name)
    (nonempty : name ≠ []) (rest : Text) :
    afterPart? (quotedName name ++ rest) = some rest := by
  have inside : (name ++ '"' :: rest).dropWhile (· != '"') = '"' :: rest := by
    have all : ∀ character ∈ name, (character != '"') = true := by
      intro character member
      apply bne_iff_ne.mpr
      rintro rfl
      exact noQuote member
    rw [List.dropWhile_append_of_pos all]
    rfl
  have start : (name ++ '"' :: rest).head? ≠ some '"' := by
    rw [List.head?_append_of_ne_nil _ nonempty]
    intro first
    exact noQuote (List.mem_of_mem_head? first)
  rw [quotedName, doubled_of_not_mem noQuote, List.cons_append,
    List.append_assoc, List.singleton_append, afterPart?, if_pos rfl, inside]
  exact if_neg start

theorem afterChain?_dottedNames {schema name : Text}
    (noQuote : '"' ∉ schema ∧ '"' ∉ name)
    (nonempty : schema ≠ [] ∧ name ≠ []) :
    afterChain? (dottedNames schema name ++ [';']) = some [';'] := by
  have first := afterPart?_quotedName noQuote.1 nonempty.1
    ('.' :: (quotedName name ++ [';']))
  have second := afterPart?_quotedName noQuote.2 nonempty.2 [';']
  have dot : character? '.' ('.' :: (quotedName name ++ [';'])) =
      some (quotedName name ++ [';']) := rfl
  rw [afterChain?, dottedNames, List.append_assoc, List.cons_append, first,
    Option.map_some, afterMoreParts, dot, Option.bind_eq_bind,
    Option.bind_some, second]
  rfl

/-! ## The query -/

/-- The keywords behind which a query mentions objects. -/
def queryKeywords : List Text :=
  ["FROM", "JOIN"]

/-- Nothing is mentioned where no keyword starts. -/
theorem anyMention?_eq_none {character : Char}
    (other : character ∉ ['F', 'J']) (behind rest : Text) :
    anyMention? queryKeywords behind (character :: rest) = none := by
  have absent : ∀ keyword ∈ queryKeywords,
      mention? keyword behind (character :: rest) = none := by
    intro keyword member
    have starts : keyword.head?.any ['F', 'J'].contains = true := by
      have all : ∀ keyword ∈ queryKeywords,
          keyword.head?.any ['F', 'J'].contains = true := by
        decide
      exact all keyword member
    have noKeyword : dropStart? keyword (character :: rest) = none := by
      cases keyword with
      | nil => cases starts
      | cons first letters =>
          rw [dropStart?, if_neg]
          rw [List.isPrefixOf_iff_prefix, List.cons_prefix_cons]
          rintro ⟨rfl, -⟩
          exact other (List.contains_iff_mem.mp starts)
    rw [mention?, noKeyword]
    split <;> rfl
  rw [anyMention?, List.findSome?_eq_none_iff]
  exact absent

/-- The query mentions its table behind its keyword. -/
theorem anyMention?_selection {schema name : Text}
    (noQuote : '"' ∉ schema ∧ '"' ∉ name)
    (nonempty : schema ≠ [] ∧ name ≠ []) :
    anyMention? queryKeywords ("SELECT * " : Text).reverse
        (("FROM " : Text) ++ (dottedNames schema name ++ [';'])) =
      some (⟨"FROM", dottedNames schema name, false⟩, [';']) := by
  have start : isBoundary ("SELECT * " : Text).reverse
      (("FROM " : Text) ++ (dottedNames schema name ++ [';'])) = true := rfl
  have keyword : dropStart? "FROM"
      (("FROM " : Text) ++ (dottedNames schema name ++ [';'])) =
        some (' ' :: (dottedNames schema name ++ [';'])) := rfl
  have blank : blanks? (' ' :: (dottedNames schema name ++ [';'])) =
      some (dottedNames schema name ++ [';']) := rfl
  have noExpression : skipExpression (dottedNames schema name ++ [';']) =
      dottedNames schema name ++ [';'] := rfl
  have noList : character? '(' (skipBlanks [';']) = none := by decide
  have chain := afterChain?_dottedNames noQuote nonempty
  have found : mention? "FROM" ("SELECT * " : Text).reverse
      (("FROM " : Text) ++ (dottedNames schema name ++ [';'])) =
        some (⟨"FROM", dottedNames schema name, false⟩, [';']) := by
    rw [mention?, if_pos start, keyword]
    simp only [bind, Option.bind, blank, noExpression, chain, noList,
      upTo_append]
  unfold anyMention? queryKeywords
  rw [List.findSome?_cons, found]

theorem references_selection (policy : Policy) {schema name : Text}
    (noQuote : '"' ∉ schema ∧ '"' ∉ name)
    (nonempty : schema ≠ [] ∧ name ≠ []) :
    references policy queryKeywords (selection schema name ++ [';']) =
      [NormalName.ofName policy { schema := some schema, name := name }] := by
  have keyword := anyMention?_selection noQuote nonempty
  have front : ∀ character ∈ ("SELECT * " : Text), character ∉ ['F', 'J'] :=
    List.all_iff_forall_prop.mp (by decide)
  have query : selection schema name ++ [';'] =
      ("SELECT * " : Text) ++
        'F' :: ((("ROM " : Text) ++ dottedNames schema name) ++ [';']) := by
    have keywords : ("SELECT * FROM " : Text) =
        ("SELECT * " : Text) ++ 'F' :: ("ROM " : Text) := by
      decide
    unfold selection
    rw [keywords]
    simp only [List.append_assoc, List.cons_append]
  have ending : ∀ behind, occurrencesFrom (anyMention? queryKeywords) 0 behind
      [';'] = [] := by
    intro behind
    rw [occurrencesFrom, anyMention?_eq_none (by decide)]
    rfl
  have occurs : occurrences (anyMention? queryKeywords)
      (selection schema name ++ [';']) =
        [(("SELECT * " : Text).reverse,
          ⟨"FROM", dottedNames schema name, false⟩)] := by
    rw [query, occurrences,
      occurrencesFrom_append fun character member =>
        anyMention?_eq_none (front character member),
      List.append_nil, occurrencesFrom_of_some keyword, ending]
  have followed : Mention.reference? policy
      ⟨"FROM", dottedNames schema name, false⟩ ("SELECT * " : Text).reverse =
        some (NormalName.ofName policy
          (QualifiedName.ofText (dottedNames schema name))) := rfl
  rw [ofText_dottedNames] at followed
  rw [references, occurs]
  simp only [List.filterMap_cons, followed, List.filterMap_nil]

/-- Capitals of a query are the query for the capitals of its names. -/
theorem upper_selection {schema name : Text}
    (noQuote : '"' ∉ schema ∧ '"' ∉ name) :
    upper (selection schema name ++ [';']) =
      selection (upper schema) (upper name) ++ [';'] := by
  have quoted : ∀ {text : Text}, '"' ∉ text →
      upper (quotedName text) = quotedName (upper text) := by
    intro text absent
    have quote : upper ['"'] = ['"'] := by decide
    rw [quotedName, doubled_of_not_mem absent, quotedName,
      doubled_of_not_mem (not_quote_mem_upper absent),
      ← List.singleton_append, upper_append, upper_append, quote]
    rfl
  have keywords : upper "SELECT * FROM " = ("SELECT * FROM " : Text) := by
    decide
  have dot : ∀ text, upper ('.' :: text) = '.' :: upper text := fun _ => rfl
  have ending : upper [';'] = [';'] := by decide
  unfold selection dottedNames
  simp only [upper_append, keywords, quoted noQuote.1, quoted noQuote.2, dot,
    ending]

theorem stripCommentsAndStrings_selection (schema name : Text) :
    stripCommentsAndStrings (selection schema name ++ [';']) =
      selection schema name ++ [';'] := by
  have codes : ∀ code ∈ (["SELECT * FROM ", "."] : List Text),
      code ≠ [] ∧ IsQuiet code := by
    decide
  have spelling : IsSpelling [("SELECT * FROM ", schema), (['.'], name)]
      [';'] :=
    ⟨codes, by decide⟩
  have spelled : selection schema name ++ [';'] =
      spell [("SELECT * FROM ", schema), (['.'], name)] [';'] := by
    unfold selection dottedNames
    simp only [spell, List.append_assoc, List.cons_append, List.nil_append]
  rw [spelled, stripCommentsAndStrings_spell spelling]

end Terraform

end Snowform
