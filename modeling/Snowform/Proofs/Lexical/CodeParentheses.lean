import Snowform.Proofs.Lexical.MaskedBytes
import Snowform.Proofs.Lexical.Parting
import Snowform.Proofs.Lexical.Parentheses
import Mathlib.Order.Bounds.Basic

/-!
# Parentheses of code

Where a parenthesis closes is looked for in the masked script, with quotes
told from what the mask shows.  It can also be told from the regions of the
script: the balance of code from one byte to another is the number of opening
parentheses of code less that of closing ones, and nothing else counts.

Both agree.  The closing parenthesis of one of code stands at the first byte
at which the balance from the opening one on is zero, up to there the balance
is positive, and there is no closing parenthesis for anything that is not an
opening one of code.

The search is followed region by region.  `EndsBalance` is the invariant: what
is found behind the regions of the rest, with some parentheses open in front
of them, is the first zero of the balance of the rest.
-/

namespace Snowform.Lexical

open Text

/-! ## The balance of code -/

/-- Whether a byte of a script is a character of code. -/
def isCodeAt (script : Text) (character : Char) (byte : Nat) : Bool :=
  kindAt? script byte == some .code &&
    characterAt? script byte == some character

/--
The number of opening parentheses of code less that of closing ones, at the
bytes from the first one to the last one.
-/
def codeBalance (script : Text) (first last : Nat) : Int :=
  let bytes := List.range' first (last + 1 - first)
  bytes.countP (isCodeAt script '(') - bytes.countP (isCodeAt script ')')

/-! ## First zeros -/

/--
Whether a place is the first one at which a balance is zero, with the balance
positive before it; without a place the balance is positive everywhere.
-/
def IsFirstZero (balance : Nat → Int) : Option Nat → Prop
  | some place =>
      balance place = 0 ∧ ∀ earlier < place, 0 < balance earlier
  | none => ∀ place, 0 < balance place

namespace IsFirstZero

variable {balance : Nat → Int} {start : Nat} {found : Option Nat}

/-- A stretch in which a balance stays positive can stand in front. -/
theorem behind (opened : ∀ count < start, 0 < balance count)
    (first : IsFirstZero (fun count => balance (start + count)) found) :
    IsFirstZero balance (found.map (start + ·)) := by
  have later : ∀ {place : Nat}, (∀ count, start + count < place →
      0 < balance (start + count)) → ∀ count < place, 0 < balance count := by
    intro place positive count bound
    by_cases inside : count < start
    · exact opened count inside
    · obtain ⟨rest, rfl⟩ := Nat.exists_eq_add_of_le (Nat.le_of_not_lt inside)
      exact positive rest bound
  cases found with
  | none =>
      intro place
      exact later (fun count _ => first count) place (Nat.lt_succ_self place)
  | some place =>
      exact ⟨first.1, later fun count bound =>
        first.2 count (Nat.lt_of_add_lt_add_left bound)⟩

theorem positive
    (first : IsFirstZero (fun count => balance (start + count)) found)
    {last : Nat} (starts : start ≤ last)
    (before : ∀ place ∈ found.map (start + ·), last < place) :
    0 < balance last := by
  obtain ⟨count, rfl⟩ := Nat.exists_eq_add_of_le starts
  cases found with
  | none => exact first count
  | some place =>
      exact first.2 count (Nat.lt_of_add_lt_add_left (before _ rfl))

/-- The first zero from a start on is the least offset with balance zero. -/
theorem eq_some_iff
    (first : IsFirstZero (fun count => balance (start + count)) found)
    (place : Nat) :
    found.map (start + ·) = some place ↔
      IsLeast {last | start ≤ last ∧ balance last = 0} place := by
  have bounded : ∀ least ∈ found.map (start + ·),
      IsLeast {last | start ≤ last ∧ balance last = 0} least := by
    intro least known
    obtain ⟨count, rfl, rfl⟩ := Option.map_eq_some_iff.mp known
    refine ⟨⟨Nat.le_add_right start count, first.1⟩, ?_⟩
    rintro last ⟨starts, zero⟩
    by_contra earlier
    have opened : 0 < balance last := by
      apply first.positive starts
      rintro _ ⟨⟩
      exact Nat.lt_of_not_le earlier
    exact opened.ne' zero
  constructor
  · exact bounded place
  · rintro ⟨⟨starts, zero⟩, below⟩
    cases found with
    | none =>
        have opened : 0 < balance place := first.positive starts nofun
        exact absurd zero opened.ne'
    | some count =>
        have least := bounded _ rfl
        exact congrArg some (least.unique ⟨⟨starts, zero⟩, below⟩)

end IsFirstZero

/-! ## The balance of painted characters -/

/-- What a painted character adds to the balance. -/
def weight (painted : Char × RegionKind) : Int :=
  (if painted = ('(', .code) then 1 else 0) -
    (if painted = (')', .code) then 1 else 0)

theorem weight_of_not_code {painted : Char × RegionKind}
    (other : painted.2 ≠ .code) : weight painted = 0 := by
  have noMark : ∀ mark : Char, painted ≠ (mark, .code) := by
    rintro mark rfl
    exact other rfl
  rw [weight, if_neg (noMark '('), if_neg (noMark ')')]
  rfl

theorem weight_of_plain {character : Char}
    (plain : character ∉ ['(', ')']) (kind : RegionKind) :
    weight (character, kind) = 0 := by
  simp only [List.mem_cons, List.not_mem_nil, or_false, not_or] at plain
  simp [weight, plain]

/-- What the painted character that covers a byte adds to the balance. -/
def weightAt (list : List (Char × RegionKind)) (byte : Nat) : Int :=
  ((coverAt? paintedWidth byte list).map weight).getD 0

theorem weightAt_eq (list : List (Char × RegionKind)) (byte : Nat) :
    weightAt list byte =
      (if coverAt? paintedWidth byte list = some ('(', .code) then 1 else 0) -
        (if coverAt? paintedWidth byte list = some (')', .code) then 1
          else 0) := by
  rw [weightAt]
  cases coverAt? paintedWidth byte list with
  | none => rfl
  | some painted => simp [weight]

/-- The balance of the first bytes of painted characters. -/
def paintedBalance (list : List (Char × RegionKind)) : Nat → Int
  | 0 => 0
  | count + 1 => paintedBalance list count + weightAt list count

section

variable {first : List (Char × RegionKind)}

theorem paintedBalance_within {count : Nat}
    (inside : count ≤ coveredSize paintedWidth first)
    (rest : List (Char × RegionKind)) :
    paintedBalance (first ++ rest) count = paintedBalance first count := by
  induction count with
  | zero => rfl
  | succ count ih =>
      rw [paintedBalance, paintedBalance, ih (Nat.le_of_succ_le inside),
        weightAt, weightAt, coverAt?_append_left inside]

/-- Balances of characters one behind another are added. -/
theorem paintedBalance_append (first rest : List (Char × RegionKind))
    (count : Nat) :
    paintedBalance (first ++ rest) (coveredSize paintedWidth first + count) =
      paintedBalance first (coveredSize paintedWidth first) +
        paintedBalance rest count := by
  induction count with
  | zero =>
      rw [Nat.add_zero, paintedBalance_within (Nat.le_refl _)]
      exact (Int.add_zero _).symm
  | succ count ih =>
      rw [← Nat.add_assoc, paintedBalance, ih, paintedBalance, weightAt,
        coverAt?_append_right (Nat.le_add_right _ _), Nat.add_sub_cancel_left,
        Int.add_assoc]
      rfl

theorem paintedBalance_weightless
    (weightless : ∀ painted ∈ first, weight painted = 0) (count : Nat) :
    paintedBalance first count = 0 := by
  induction count with
  | zero => rfl
  | succ count ih =>
      rw [paintedBalance, ih, weightAt]
      cases covers : coverAt? paintedWidth count first with
      | none => rfl
      | some painted =>
          rw [Option.map_some, weightless painted (mem_of_coverAt? covers)]
          rfl

end

/-! ## Bytes of code -/

theorem isCodeAt_iff {script : Text} {character : Char} {byte : Nat} :
    isCodeAt script character byte = true ↔
      coverAt? paintedWidth byte (painted (lexemes script)) =
        some (character, .code) := by
  rw [isCodeAt, Bool.and_eq_true, beq_iff_eq, beq_iff_eq, kindAt?_eq,
    characterAt?_eq]
  constructor
  · rintro ⟨kind, shown⟩
    obtain ⟨⟨_, _⟩, covers, rfl⟩ := Option.map_eq_some_iff.mp kind
    rw [covers] at shown ⊢
    obtain rfl := Option.some.inj shown
    rfl
  · intro covers
    rw [covers]
    exact ⟨rfl, rfl⟩

/-- A byte of code is a region of its own. -/
theorem exists_regions_of_coverAt? {regions : List Region}
    (lexemes : ∀ region ∈ regions, IsLexeme region) {character : Char}
    (narrow : character.utf8Size = 1) {byte : Nat}
    (covers : coverAt? paintedWidth byte (painted regions) =
      some (character, .code)) :
    ∃ first second, regions = first ++ ⟨.code, [character]⟩ :: second ∧
      byteSize (textOf first) = byte := by
  induction regions generalizing byte with
  | nil => cases covers
  | cons region others ih =>
      rw [List.forall_mem_cons] at lexemes
      rw [painted_cons] at covers
      have size := coveredSize_map_paint region.kind region.text
      by_cases inside : byte < byteSize region.text
      · rw [coverAt?_append_left (by rw [size]; exact inside)] at covers
        obtain ⟨shown, member, same⟩ :=
          List.mem_map.mp (mem_of_coverAt? covers)
        obtain ⟨rfl, code⟩ := Prod.mk.inj same
        obtain ⟨kind, text⟩ := region
        obtain rfl : kind = .code := code
        obtain ⟨single, rfl : text = [single]⟩ := lexemes.1.2 rfl
        obtain rfl := List.mem_singleton.mp member
        refine ⟨[], others, rfl, ?_⟩
        rw [byteSize_cons, narrow, byteSize_nil] at inside
        rw [textOf_nil, byteSize_nil]
        omega
      · have behind : byteSize region.text ≤ byte := Nat.le_of_not_lt inside
        rw [coverAt?_append_right (by rw [size]; exact behind), size] at covers
        obtain ⟨first, second, rfl, starts⟩ := ih lexemes.2 covers
        refine ⟨region :: first, second, rfl, ?_⟩
        rw [textOf_cons, byteSize_append, starts]
        omega

theorem isCodeAt_of_lexemes {script : Text} {first second : List Region}
    {character : Char}
    (parts : lexemes script = first ++ ⟨.code, [character]⟩ :: second) :
    isCodeAt script character (byteSize (textOf first)) = true := by
  rw [isCodeAt_iff, parts, painted_append, painted_cons,
    ← coveredSize_painted]
  exact coverAt?_append_cons _ _ _ character.utf8Size_pos

/-- The balance from a place between regions on is that of what follows. -/
theorem codeBalance_eq {script : Text} {first second : List Region}
    (parts : lexemes script = first ++ second) (count : Nat) :
    codeBalance script (byteSize (textOf first))
        (byteSize (textOf first) + count) =
      paintedBalance (painted second) (count + 1) := by
  generalize starts : byteSize (textOf first) = start
  have covers : ∀ number : Nat,
      coverAt? paintedWidth (start + number) (painted (lexemes script)) =
        coverAt? paintedWidth number (painted second) := by
    intro number
    have behind : coveredSize paintedWidth (painted first) ≤
        start + number := by
      rw [coveredSize_painted, starts]
      exact Nat.le_add_right start number
    rw [parts, painted_append, coverAt?_append_right behind,
      coveredSize_painted, starts, Nat.add_sub_cancel_left]
  have counted : ∀ number : Nat,
      ((List.range' start number).countP (isCodeAt script '(') : Int) -
          (List.range' start number).countP (isCodeAt script ')') =
        paintedBalance (painted second) number := by
    intro number
    induction number with
    | zero => rfl
    | succ number ih =>
        rw [List.range'_1_concat, paintedBalance, weightAt_eq, ← ih]
        simp only [List.countP_append, List.countP_singleton, isCodeAt_iff,
          covers]
        split_ifs <;> omega
  have size : start + count + 1 - start = count + 1 := by omega
  rw [codeBalance, size]
  exact counted (count + 1)

/-! ## Looking for the closing parenthesis -/

/--
Whether a search ended where the balance of painted characters, with one
parenthesis and a number of others open in front of them, is zero for the
first time.
-/
def EndsBalance (list : List (Char × RegionKind)) (depth : Nat)
    (found : Option (Text × Text)) : Prop :=
  IsFirstZero (fun count => depth + 1 + paintedBalance list count)
    (found.map fun parts => byteSize parts.1 + 1)

namespace EndsBalance

variable {first rest : List (Char × RegionKind)} {depth inner : Nat}
  {found : Option (Text × Text)}

/--
Characters in front shift the end, if a parenthesis stays open in them and
those that are open behind them are counted on from there.
-/
theorem behind (ends : EndsBalance rest inner found)
    (deeper : (inner : Int) =
      depth + paintedBalance first (coveredSize paintedWidth first))
    (opened : ∀ count < coveredSize paintedWidth first,
      0 < (depth : Int) + 1 + paintedBalance first count)
    {front : Text} (size : coveredSize paintedWidth first = byteSize front) :
    EndsBalance (first ++ rest) depth
      (found.map fun parts => (front ++ parts.1, parts.2)) := by
  have shifted : IsFirstZero
      (fun count => (depth : Int) + 1 + paintedBalance (first ++ rest)
        (coveredSize paintedWidth first + count))
      (found.map fun parts => byteSize parts.1 + 1) := by
    have same : ∀ count, (depth : Int) + 1 + paintedBalance (first ++ rest)
        (coveredSize paintedWidth first + count) =
          inner + 1 + paintedBalance rest count := by
      intro count
      rw [paintedBalance_append, deeper]
      omega
    simp only [same]
    exact ends
  have front : ∀ count < coveredSize paintedWidth first,
      0 < (fun count => (depth : Int) + 1 +
        paintedBalance (first ++ rest) count) count := by
    intro count inside
    dsimp only
    rw [paintedBalance_within (Nat.le_of_lt inside)]
    exact opened count inside
  have whole := IsFirstZero.behind front shifted
  rw [size, Option.map_map] at whole
  rw [EndsBalance, Option.map_map]
  simp only [Function.comp_def, byteSize_append, Nat.add_assoc] at whole ⊢
  exact whole

/-- What adds nothing to the balance can stand in front. -/
theorem behind_weightless (ends : EndsBalance rest depth found)
    (weightless : ∀ painted ∈ first, weight painted = 0) {front : Text}
    (size : coveredSize paintedWidth first = byteSize front) :
    EndsBalance (first ++ rest) depth
      (found.map fun parts => (front ++ parts.1, parts.2)) := by
  have nothing := paintedBalance_weightless weightless
  apply ends.behind _ _ size
  · rw [nothing, Int.add_zero]
  · intro count _
    rw [nothing]
    omega

section

variable {character : Char} (narrow : paintedWidth (character, .code) = 1)

include narrow

theorem paintedBalance_singleton :
    paintedBalance [(character, .code)] 1 = weight (character, .code) := by
  simp [paintedBalance, weightAt, coverAt?, narrow]

/-- A parenthesis in front changes the number of those that are open. -/
theorem behind_mark (deeper : (inner : Int) = depth + weight (character, .code))
    (ends : EndsBalance rest inner found) :
    EndsBalance ((character, .code) :: rest) depth
      (found.map fun parts => (character :: parts.1, parts.2)) := by
  have size : coveredSize paintedWidth [(character, RegionKind.code)] = 1 :=
    narrow
  have same : coveredSize paintedWidth [(character, RegionKind.code)] =
      byteSize [character] := rfl
  refine ends.behind ?_ ?_ same
  · rw [size, paintedBalance_singleton narrow, deeper]
  · intro count before
    rw [size, Nat.lt_one_iff] at before
    rw [before, paintedBalance]
    omega

end

/-- The parenthesis that is looked for ends the search. -/
theorem of_closing (rest : List (Char × RegionKind)) (tail : Text) :
    EndsBalance ((')', .code) :: rest) 0 (some ([], tail)) := by
  have closes : paintedBalance ([(')', .code)] ++ rest) 1 = -1 := by
    rw [paintedBalance_within (by decide), paintedBalance_singleton rfl]
    rfl
  constructor
  · change (0 : Int) + 1 + paintedBalance ([(')', .code)] ++ rest) 1 = 0
    rw [closes]
    rfl
  · intro earlier before
    obtain rfl : earlier = 0 := Nat.lt_one_iff.mp before
    exact Int.one_pos

end EndsBalance

/-! ## Masked regions -/

/-- What is hidden shows neither quotes nor parentheses. -/
theorem not_loud_of_mem_covered {fill character : Char}
    (fills : isFill fill = true) {text : Text}
    (member : character ∈ covered fill text) :
    character ∉ ['\'', '"', '(', ')'] := by
  have cases : (character = ' ' ∨ character = '_') ∨ character = '\n' := by
    rcases eq_of_mem_covered member with rfl | rfl
    · exact .inl (by simpa [isFill] using fills)
    · exact .inr rfl
  rcases cases with (rfl | rfl) | rfl <;> decide

/-- A marker of a dollar body has neither quotes nor parentheses. -/
theorem not_loud_of_mem_marker {tag : Text}
    (opens : (Mode.dollarQuote tag).Opens) {character : Char}
    (member : character ∈ (Mode.dollarQuote tag).opening) :
    character ∉ ['\'', '"', '(', ')'] := by
  have cases : character = '$' ∨ character ∈ tag := by
    simpa [Mode.opening, or_comm, or_assoc] using member
  rcases cases with rfl | inside
  · decide
  · have tagged : isTagCharacter character = true := opens character inside
    have untagged : ∀ mark ∈ ['\'', '"', '(', ')'],
        isTagCharacter mark = false :=
      List.all_iff_forall_prop.mp (by decide)
    intro loud
    exact Bool.false_ne_true ((untagged character loud).symm.trans tagged)

/-- Between quotes nothing that is hidden ends the search. -/
theorem closing?_covered {quote : Char} (isQuote : IsQuote quote)
    (depth : Nat) (inside rest : Text) :
    closing? (some quote) depth (covered '_' inside ++ rest) =
      (closing? (some quote) depth rest).map fun parts =>
        (covered '_' inside ++ parts.1, parts.2) := by
  refine closing?_quoted ?_ depth rest
  rintro character member (rfl : character = quote)
  refine not_loud_of_mem_covered (by decide) member ?_
  rcases isQuote with same | same <;> rw [same] <;> decide

/-- A literal that is closed is balanced when it is masked. -/
theorem isBalanced_closedLiteral {mode : Mode} (opens : mode.Opens)
    (literal : mode.kind.isLiteral = true) (inside : Text) :
    IsBalanced (mode.opening ++ (covered '_' inside ++ mode.opening)) := by
  have quoted : ∀ {quote : Char}, IsQuote quote →
      IsBalanced (quote :: (covered '_' inside ++ [quote])) := by
    intro quote isQuote depth rest
    rw [List.cons_append, List.append_assoc, closing?_quote isQuote rfl,
      closing?_covered isQuote, List.singleton_append,
      closing?_endQuote quote rfl, Option.map_map, Option.map_map]
    simp only [Function.comp_def, List.append_assoc, List.cons_append,
      List.nil_append]
  cases mode with
  | singleQuote => exact quoted (.inl rfl)
  | doubleQuote => exact quoted (.inr rfl)
  | dollarQuote tag =>
      have marker : IsBalanced (Mode.dollarQuote tag).opening :=
        isBalanced_of_forall fun _ => not_loud_of_mem_marker opens
      exact marker.append ((isBalanced_of_forall fun _ =>
        not_loud_of_mem_covered (by decide)).append marker)
  | _ => cases literal

/-- In a literal that is not closed no parenthesis closes. -/
theorem closing?_openLiteral {mode : Mode} (opens : mode.Opens)
    (literal : mode.kind.isLiteral = true) (depth : Nat) (inside : Text) :
    closing? none depth (mode.opening ++ covered '_' inside) = none := by
  have quoted : ∀ {quote : Char}, IsQuote quote →
      closing? none depth (quote :: covered '_' inside) = none := by
    intro quote isQuote
    have ended := closing?_covered isQuote depth inside []
    rw [List.append_nil] at ended
    rw [closing?_quote isQuote rfl, ended]
    rfl
  cases mode with
  | singleQuote => exact quoted (.inl rfl)
  | doubleQuote => exact quoted (.inr rfl)
  | dollarQuote tag =>
      have plain : IsBalanced
          ((Mode.dollarQuote tag).opening ++ covered '_' inside) :=
        (isBalanced_of_forall fun _ => not_loud_of_mem_marker opens).append
          (isBalanced_of_forall fun _ => not_loud_of_mem_covered (by decide))
      have ended := plain depth []
      rw [List.append_nil] at ended
      rw [ended]
      rfl
  | _ => cases literal

/--
A masked literal or comment is as long as it was.  It is balanced, or else it
is not closed, nothing follows it and no parenthesis closes in it.
-/
theorem masked_special {mode : Mode} (opens : mode.Opens)
    {inside rest : Text} (parts : mode.remainder inside ++ rest = inside)
    {region : Region}
    (equal : region = ⟨mode.kind, mode.opening ++ mode.remainder inside⟩) :
    byteSize region.masked = byteSize region.text ∧
      (IsBalanced region.masked ∨
        rest = [] ∧ ∀ depth, closing? none depth region.masked = none) := by
  rcases RegionKind.isLiteral_or_isComment opens.kind_ne_code with
    literal | comment
  · have maskedAs := Mode.maskedAs opens literal parts
    rw [← equal] at maskedAs
    refine ⟨maskedAs.byteSize_masked, ?_⟩
    cases maskedAs with
    | closed between whole masked follows =>
        rw [masked]
        exact .inl (isBalanced_closedLiteral opens literal between)
    | unclosed between whole stays masked ends =>
        rw [masked]
        exact .inr ⟨ends, fun depth =>
          closing?_openLiteral opens literal depth between⟩
  · have kind : region.kind.isComment = true := by
      rw [equal]
      exact comment
    rw [Region.masked_comment kind]
    exact ⟨byteSize_covered (by decide) _, .inl (isBalanced_of_forall fun _ =>
      not_loud_of_mem_covered (by decide))⟩

namespace EndsBalance

theorem nil (depth : Nat) : EndsBalance [] depth none := by
  intro count
  dsimp only
  rw [paintedBalance_weightless (List.forall_mem_nil _)]
  omega

variable {rest : List (Char × RegionKind)} {masked : Text}
  (ends : ∀ depth, EndsBalance rest depth (closing? none depth masked))

include ends

/-- The search goes on behind a character of code as the balance does. -/
theorem behind_code {character : Char}
    (noQuote : character ≠ '\'' ∧ character ≠ '"') (depth : Nat) :
    EndsBalance ((character, .code) :: rest) depth
      (closing? none depth (character :: masked)) := by
  by_cases opens : character = '('
  · subst opens
    rw [closing?_opening rfl]
    exact (ends (depth + 1)).behind_mark rfl rfl
  · by_cases closes : character = ')'
    · subst closes
      cases depth with
      | zero => exact .of_closing _ _
      | succ outer =>
          have shallower : (outer : Int) =
              (outer + 1 : Nat) + weight (')', .code) := by
            rw [Int.natCast_succ]
            exact (Int.add_sub_cancel _ 1).symm
          rw [closing?_closing rfl]
          exact (ends outer).behind_mark rfl shallower
    · have plain : character ∉ ['\'', '"', '(', ')'] := by
        simp [noQuote, opens, closes]
      have weightless : weight (character, .code) = 0 :=
        weight_of_plain (by simp [opens, closes]) _
      have size : coveredSize paintedWidth
          [(character, RegionKind.code)] = byteSize [character] := rfl
      rw [closing?_plain plain]
      exact (ends depth).behind_weightless
        (List.forall_mem_singleton.mpr weightless) size

/-- The search passes over a literal or a comment, or finds nothing in it. -/
theorem behind_special {mode : Mode} (opens : mode.Opens)
    {inside behind : Text} (parts : mode.remainder inside ++ behind = inside)
    {region : Region}
    (equal : region = ⟨mode.kind, mode.opening ++ mode.remainder inside⟩)
    (nothing : behind = [] → masked = []) (depth : Nat) :
    EndsBalance
      (region.text.map (fun character => (character, region.kind)) ++ rest)
      depth (closing? none depth (region.masked ++ masked)) := by
  have weightless : ∀ painted ∈ region.text.map fun character =>
      (character, region.kind), weight painted = 0 := by
    refine List.forall_mem_map.mpr fun character _ => ?_
    apply weight_of_not_code
    rw [equal]
    exact opens.kind_ne_code
  have length := coveredSize_map_paint region.kind region.text
  obtain ⟨size, balanced | ⟨ended, unclosed⟩⟩ :=
    masked_special opens parts equal
  · rw [balanced]
    apply (ends depth).behind_weightless weightless
    rw [length, size]
  · have found := ends depth
    rw [nothing ended] at found ⊢
    rw [List.append_nil, unclosed]
    exact EndsBalance.behind_weightless found weightless length

end EndsBalance

/-- The search in a masked text ends where its balance of code is zero. -/
theorem endsBalance_closing? (afterName : Bool) (text : Text) (depth : Nat) :
    EndsBalance (painted (lexemesFrom 0 afterName text)) depth
      (closing? none depth (maskedText (lexemesFrom 0 afterName text))) := by
  induction afterName, text using lexemeInduction generalizing depth with
  | nil afterName => exact .nil depth
  | special afterName region rest found ih =>
      obtain ⟨mode, behind, -, opens, parts, equal⟩ :=
        special?_append_eq_some found
      rw [lexemesFrom_special found, painted_cons, maskedText_cons]
      refine .behind_special ih opens parts equal ?_ depth
      rintro rfl
      rfl
  | code afterName character rest absent ih =>
      have noQuote : character ≠ '\'' ∧ character ≠ '"' := by
        constructor <;>
          · rintro rfl
            cases absent
      rw [lexemesFrom_code absent, maskedText_cons, Region.masked_code,
        painted_cons, List.map_singleton, List.singleton_append,
        List.singleton_append]
      exact .behind_code ih noQuote depth

/-! ## Places of closing parentheses -/

/-- A parenthesis that a masked script shows is a region of its own. -/
theorem exists_regions_of_mask {script : Text} {front tail : Text}
    (parts : mask script = front ++ '(' :: tail) :
    ∃ first second, lexemes script = first ++ ⟨.code, ['(']⟩ :: second ∧
      maskedText first = front ∧ maskedText second = tail := by
  obtain ⟨before, list, cut, rfl, shows⟩ := List.map_eq_append_iff.mp parts
  obtain ⟨cell, after, rfl, opens, rfl⟩ := List.map_eq_cons_iff.mp shows
  have mark : isMark (shown cell) = true := by
    rw [show shown cell = '(' from opens]
    decide
  obtain ⟨first, second, regions, rfl, rfl⟩ := exists_lexemes_of_mark mark cut
  rw [show shown cell = '(' from opens] at regions
  refine ⟨first, second, regions, ?_, ?_⟩ <;>
    rw [maskedText, List.map_flatMap] <;> rfl

theorem byteSize_maskedText_of_lexemes {script : Text}
    {first second : List Region} (parts : lexemes script = first ++ second) :
    byteSize (maskedText first) = byteSize (textOf first) := by
  apply byteSize_maskedText
  intro region member
  have known : region ∈ lexemes script := by
    rw [parts]
    exact List.mem_append_left second member
  exact byteSize_masked_of_mem known

/-- Behind a parenthesis of code the regions that follow are searched. -/
theorem closingPlace?_eq {script : Text} {first second : List Region}
    (parts : lexemes script = first ++ ⟨.code, ['(']⟩ :: second) :
    closingPlace? (mask script) (byteSize (textOf first)) =
      (closing? none 0 (maskedText second)).map fun found =>
        byteSize (textOf first) + 1 + byteSize found.1 := by
  have seen : mask script = maskedText first ++ '(' :: maskedText second := by
    rw [mask_eq_flatMap, parts, List.flatMap_append, List.flatMap_cons,
      Region.masked_code]
    rfl
  have opened : parenthesised? ('(' :: maskedText second) =
      closing? none 0 (maskedText second) := rfl
  rw [closingPlace?, seen, ← byteSize_maskedText_of_lexemes parts,
    dropBytes?_byteSize, Option.bind_eq_bind, Option.bind_some, opened]
  cases closing? none 0 (maskedText second) <;> rfl

/-- Only a parenthesis of code has a closing one. -/
theorem exists_regions_of_closingPlace? {script : Text} {opening place : Nat}
    (found : closingPlace? (mask script) opening = some place) :
    ∃ first second, lexemes script = first ++ ⟨.code, ['(']⟩ :: second ∧
      byteSize (textOf first) = opening := by
  obtain ⟨rest, dropped, inner⟩ := Option.bind_eq_some_iff.mp found
  obtain ⟨parts, enclosed, -⟩ := Option.bind_eq_some_iff.mp inner
  obtain ⟨⟨front, _⟩, cut, rfl⟩ := Option.map_eq_some_iff.mp dropped
  obtain ⟨whole, size⟩ := of_cutAt? cut
  obtain ⟨mark, closing, rfl, opens, -⟩ := exists_parentheses enclosed
  obtain rfl : mark = '(' := opens
  obtain ⟨first, second, regions, rfl, -⟩ := exists_regions_of_mask whole
  exact ⟨first, second, regions,
    (byteSize_maskedText_of_lexemes regions).symm.trans size⟩

/-- From a parenthesis of code on, its closing one is the first zero. -/
theorem isFirstZero_closingPlace? {script : Text} {first second : List Region}
    (parts : lexemes script = first ++ ⟨.code, ['(']⟩ :: second) :
    ∃ found : Option Nat,
      IsFirstZero (fun count => codeBalance script (byteSize (textOf first))
        (byteSize (textOf first) + count)) found ∧
      closingPlace? (mask script) (byteSize (textOf first)) =
        found.map (byteSize (textOf first) + ·) := by
  have ends : EndsBalance (painted second) 0
      (closing? none 0 (maskedText second)) := by
    have whole := parts
    rw [lexemes, List.append_cons] at whole
    rw [← lexemesFrom_of_eq_append whole]
    exact endsBalance_closing? _ _ 0
  have balance : ∀ count, codeBalance script (byteSize (textOf first))
      (byteSize (textOf first) + count) =
        (0 : Nat) + 1 + paintedBalance (painted second) count := by
    intro count
    have narrow : coveredSize paintedWidth [('(', RegionKind.code)] = 1 := rfl
    have added := paintedBalance_append [('(', .code)] (painted second) count
    rw [narrow, EndsBalance.paintedBalance_singleton rfl, Nat.add_comm 1]
      at added
    rw [codeBalance_eq parts, painted_cons]
    exact added
  refine ⟨(closing? none 0 (maskedText second)).map fun parts =>
    byteSize parts.1 + 1, ?_, ?_⟩
  · simp only [balance]
    exact ends
  · rw [closingPlace?_eq parts, Option.map_map]
    congr 1
    funext found
    exact Nat.add_right_comm _ 1 _

/--
The closing parenthesis of a parenthesis in the masked script stands where the
balance of code from the opening one on is zero for the first time.  There is
none if the opening one is no parenthesis of code or the balance is never zero.
Up to the closing one the balance is positive, so that it never is negative.
-/
theorem closes_where_code_balances (script : Text) (opening : Nat) :
    (∀ place, closingPlace? (mask script) opening = some place ↔
      isCodeAt script '(' opening = true ∧
        IsLeast {last | opening ≤ last ∧ codeBalance script opening last = 0}
          place) ∧
      (isCodeAt script '(' opening = true → ∀ last, opening ≤ last →
        (∀ place ∈ closingPlace? (mask script) opening, last < place) →
          0 < codeBalance script opening last) := by
  by_cases code : isCodeAt script '(' opening = true
  · obtain ⟨first, second, parts, rfl⟩ := exists_regions_of_coverAt?
      (fun _ => isLexeme_of_mem_lexemes) rfl (isCodeAt_iff.mp code)
    obtain ⟨found, zero, same⟩ := isFirstZero_closingPlace? parts
    rw [same]
    constructor
    · intro place
      rw [zero.eq_some_iff place]
      exact (and_iff_right code).symm
    · intro _ last starts before
      exact zero.positive starts before
  · constructor
    · intro place
      refine ⟨fun found => ?_, fun both => absurd both.1 code⟩
      obtain ⟨first, second, parts, rfl⟩ :=
        exists_regions_of_closingPlace? found
      exact absurd (isCodeAt_of_lexemes parts) code
    · exact fun isCode => absurd isCode code

/-- Parentheses in a string, a name, a comment and a dollar body. -/
example :
    let statement : Text := "t (a ')', \"(\" /* ) */ -- '(\n, (b) $$)$$) )"
    closingPlace? (mask statement) 2 = some 39 ∧
      closingPlace? (mask statement) 6 = none := by
  decide

end Snowform.Lexical
