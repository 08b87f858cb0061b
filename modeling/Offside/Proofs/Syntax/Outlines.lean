import Mathlib.Data.List.Nodup
import Offside.Proofs.Literals.Scanning
import Offside.Proofs.Syntax.Provenance
import Offside.Syntax.Outline

namespace Offside

/-!
# Outlines tell trees apart

The outline of a program determines its tree.  Every field is written on lines of its own, so
the texts of numbers, names and strings have to be on one line and have to tell their values
apart.  The name of a node says which fields follow, and a list of nodes ends in a bracket that
stands further left than its nodes; so the lines of a node can be told from those that follow.
-/

/-! ## Texts of fields -/

/-- The number of a code point determines it. -/
theorem CodePoint.toNat_inj {code other : CodePoint} (same : code.toNat = other.toNat) :
    code = other := by
  have apart (char : Char) (low : Fin 2048) : char.toNat ≠ 0xD800 + low.val := by
    have valid : char.toNat < 0xD800 ∨ 0xDFFF < char.toNat ∧ char.toNat < 0x110000 := char.valid
    omega
  cases code with
  | scalar char =>
    cases other with
    | scalar => rw [Char.toNat_inj.mp same]
    | surrogate low => exact (apart char low same).elim
  | surrogate low =>
    cases other with
    | scalar char => exact (apart char low same.symm).elim
    | surrogate => rw [Fin.ext (Nat.add_left_cancel same)]

namespace Text

/-- A text without a line feed. -/
def OneLine (text : Text) : Prop :=
  .scalar '\n' ∉ text

instance (text : Text) : Decidable (OneLine text) :=
  inferInstanceAs (Decidable (_ ∉ text))

theorem OneLine.cons
    {code : CodePoint} {text : Text}
    (other : code ≠ .scalar '\n')
    (oneLine : OneLine text) :
    OneLine (code :: text) :=
  List.not_mem_cons_of_ne_of_not_mem other.symm oneLine

theorem OneLine.append
    {text other : Text}
    (first : OneLine text)
    (second : OneLine other) :
    OneLine (text ++ other) :=
  List.not_mem_append first second

/-- Digits stand in one line. -/
theorem OneLine.of_digits {text : Text} (digits : ∀ code ∈ text, code.isDigit = true) :
    OneLine text :=
  fun member => Bool.noConfusion (digits _ member)

/-- Texts on one line are told apart by what stands before the line feed. -/
theorem OneLine.cut
    {text other rest more : Text}
    (first : OneLine text)
    (second : OneLine other)
    (same : text ++ .scalar '\n' :: rest = other ++ .scalar '\n' :: more) :
    text = other ∧ rest = more := by
  rcases List.append_eq_append_iff.mp same with
    ⟨gap, rfl, shape⟩ | ⟨gap, rfl, shape⟩
  · cases gap with
    | nil => exact ⟨(List.append_nil _).symm, (List.cons.inj shape).2⟩
    | cons code gap =>
      cases (List.cons.inj shape).1
      exact (second (List.mem_append_right _ List.mem_cons_self)).elim
  · cases gap with
    | nil => exact ⟨List.append_nil _, (List.cons.inj shape).2.symm⟩
    | cons code gap =>
      cases (List.cons.inj shape).1
      exact (first (List.mem_append_right _ List.mem_cons_self)).elim

/-- The number that hexadecimal digits denote. -/
def hexNumber (digits : Text) : Nat :=
  digits.foldl (fun value digit => 16 * value + digit.hexValue?.getD 0) 0

/-- A hexadecimal digit is read as the number that it is written for. -/
theorem hexValue?_digitChar (digit : Fin 16) :
    (CodePoint.scalar (Nat.digitChar digit)).hexValue? = some digit.val := by
  revert digit
  decide

theorem length_hexDigits (width number : Nat) : (hexDigits width number).length = width := by
  induction width generalizing number with
  | zero => rfl
  | succ width hypothesis => rw [hexDigits, List.length_append, hypothesis]; rfl

/-- A number that fits is read back from its hexadecimal digits. -/
theorem hexNumber_hexDigits {width number : Nat} (fits : number < Nat.pow 16 width) :
    hexNumber (hexDigits width number) = number := by
  induction width generalizing number with
  | zero => exact (Nat.lt_one_iff.mp fits).symm
  | succ width hypothesis =>
    have fewer : number / 16 < Nat.pow 16 width :=
      Nat.div_lt_of_lt_mul (Nat.mul_comm 16 _ ▸ fits)
    have last := hexValue?_digitChar ⟨number % 16, Nat.mod_lt number (by decide)⟩
    have before := hypothesis fewer
    unfold hexNumber at before ⊢
    rw [hexDigits, List.foldl_append, before, List.foldl_cons, List.foldl_nil, last]
    exact Nat.div_add_mod number 16

theorem oneLine_hexDigits (width number : Nat) : OneLine (hexDigits width number) := by
  induction width generalizing number with
  | zero => exact List.not_mem_nil
  | succ width hypothesis =>
    have last := hexValue?_digitChar ⟨number % 16, Nat.mod_lt number (by decide)⟩
    intro member
    rcases List.mem_append.mp member with before | isLast
    · exact hypothesis _ before
    · rw [← List.mem_singleton.mp isLast] at last
      cases last

/-- The number of the code point behind a backslash, and what follows it. -/
def readEscape : Text → Option (Nat × Text)
  | [] => none
  | .scalar 'x' :: rest => some (hexNumber (rest.take 2), rest.drop 2)
  | .scalar 'u' :: rest => some (hexNumber (rest.take 4), rest.drop 4)
  | .scalar 'U' :: rest => some (hexNumber (rest.take 8), rest.drop 8)
  | .scalar 'n' :: rest => some ('\n'.toNat, rest)
  | .scalar 'r' :: rest => some ('\r'.toNat, rest)
  | .scalar 't' :: rest => some ('\t'.toNat, rest)
  | code :: rest => some (code.toNat, rest)

/-- The number of the code point that a listing shows first, and what follows it. -/
def readDumped : Text → Option (Nat × Text)
  | [] => none
  | .scalar '\\' :: rest => readEscape rest
  | code :: rest => some (code.toNat, rest)

/-- The digits of an escape end where their width says. -/
theorem take_hexDigits {width number : Nat} (fits : number < Nat.pow 16 width) (rest : Text) :
    hexNumber ((hexDigits width number ++ rest).take width) = number ∧
      (hexDigits width number ++ rest).drop width = rest := by
  have size := length_hexDigits width number
  rw [List.take_left' size, List.drop_left' size]
  exact ⟨hexNumber_hexDigits fits, rfl⟩

/-- An escape by number is read as its code point, whatever follows. -/
theorem readDumped_numberedCode (code : CodePoint) (rest : Text) :
    readDumped (numberedCode code ++ rest) = some (code.toNat, rest) := by
  have numbered {width : Nat} (fits : code.toNat < Nat.pow 16 width) :
      some (hexNumber ((hexDigits width code.toNat ++ rest).take width),
        (hexDigits width code.toNat ++ rest).drop width) = some (code.toNat, rest) := by
    rw [(take_hexDigits fits rest).1, (take_hexDigits fits rest).2]
  have bound : code.toNat < Nat.pow 16 8 := by
    cases code with
    | scalar char => exact char.val.toNat_lt
    | surrogate low => exact Nat.lt_of_lt_of_le (Nat.add_lt_add_left low.isLt _) (by decide)
  unfold numberedCode
  dsimp only
  split
  · next small => exact numbered small
  · split
    · next small => exact numbered small
    · exact numbered bound

/-- A code point is read back from a listing. -/
theorem readDumped_dumpedCode
    {quote : CodePoint}
    (isQuote : quote = .scalar '\'' ∨ quote = .scalar '"')
    (code : CodePoint)
    (rest : Text) :
    readDumped (dumpedCode quote code ++ rest) = some (code.toNat, rest) := by
  unfold dumpedCode
  split
  · next same =>
      subst same
      rcases isQuote with rfl | rfl <;> rfl
  · split
    · rfl
    · rfl
    · rfl
    · rfl
    · split
      · simp [readDumped]
      · exact readDumped_numberedCode code rest

/-- A dump has one of two quotes. -/
theorem isQuote_dumpQuote (text : Text) :
    dumpQuote text = .scalar '\'' ∨ dumpQuote text = .scalar '"' := by
  unfold dumpQuote
  split
  · exact .inr rfl
  · exact .inl rfl

/-- A listing determines its text. -/
theorem dumped_inj {text other : Text} (same : dumped text = dumped other) : text = other := by
  obtain ⟨sameQuote, sameCodes⟩ := List.cons.inj same
  have isQuote := isQuote_dumpQuote text
  rw [← sameQuote] at sameCodes
  generalize dumpQuote text = quote at isQuote sameCodes
  have opens (code : CodePoint) (text : Text) :
      readDumped ((code :: text).flatMap (dumpedCode quote) ++ [quote]) =
        some (code.toNat, text.flatMap (dumpedCode quote) ++ [quote]) := by
    rw [List.flatMap_cons, List.append_assoc, readDumped_dumpedCode isQuote]
  have goesOn (code : CodePoint) (text : Text) :
      (code :: text).flatMap (dumpedCode quote) ++ [quote] ≠ [quote] := by
    intro ends
    have closes : readDumped [quote] = some (quote.toNat, []) := by
      rcases isQuote with rfl | rfl <;> rfl
    rw [← ends, opens] at closes
    simp at closes
  clear same sameQuote
  induction text generalizing other with
  | nil =>
    cases other with
    | nil => rfl
    | cons code other => exact (goesOn code other sameCodes.symm).elim
  | cons code text hypothesis =>
    cases other with
    | nil => exact (goesOn code text sameCodes).elim
    | cons otherCode other =>
      have read := congrArg readDumped sameCodes
      rw [opens, opens] at read
      obtain ⟨sameCode, sameRest⟩ := Prod.mk.inj (Option.some.inj read)
      rw [CodePoint.toNat_inj sameCode, hypothesis sameRest]

/-- A dump escapes line feeds, so it stands in one line. -/
theorem oneLine_dumpedCode
    {quote : CodePoint}
    (isQuote : quote = .scalar '\'' ∨ quote = .scalar '"')
    (code : CodePoint) :
    OneLine (dumpedCode quote code) := by
  unfold dumpedCode
  split
  · next same =>
      subst same
      rcases isQuote with rfl | rfl <;> decide
  · split
    · decide
    · decide
    · decide
    · decide
    · next noFeed _ _ =>
        split
        · exact .cons noFeed (by decide)
        · unfold numberedCode
          dsimp only
          split
          · exact .cons (by decide) (.cons (by decide) (oneLine_hexDigits _ _))
          · split <;> exact .cons (by decide) (.cons (by decide) (oneLine_hexDigits _ _))

theorem oneLine_dumped (text : Text) : OneLine (dumped text) := by
  have isQuote := isQuote_dumpQuote text
  have noFeed : dumpQuote text ≠ .scalar '\n' := by
    rcases isQuote with same | same <;> rw [same] <;> decide
  refine .cons noFeed (.append ?_ (.cons noFeed List.not_mem_nil))
  intro member
  obtain ⟨code, -, inCode⟩ := List.mem_flatMap.mp member
  exact oneLine_dumpedCode isQuote code inCode

theorem oneLine_ofNat (number : Nat) : OneLine (ofNat number) :=
  .of_digits fun _ => isDigit_of_mem_ofNat

/-- So do integers. -/
theorem oneLine_ofInt (number : Int) : OneLine (ofInt number) := by
  cases number with
  | ofNat number => exact oneLine_ofNat number
  | negSucc number => exact .cons (by decide) (oneLine_ofNat _)

/-- The digits of a number determine it. -/
theorem ofNat_inj {number other : Nat} (same : ofNat number = ofNat other) : number = other := by
  rw [← digitsValue_ofNat number, same, digitsValue_ofNat]

/-- The text of an integer determines it. -/
theorem ofInt_inj {number other : Int} (same : ofInt number = ofInt other) : number = other := by
  have unsigned (number : Nat) (text : Text) : ofNat number ≠ .scalar '-' :: text := by
    intro signed
    have isSign : CodePoint.scalar '-' ∈ ofNat number := signed ▸ List.mem_cons_self
    cases isDigit_of_mem_ofNat isSign
  cases number with
  | ofNat number =>
    cases other with
    | ofNat => exact congrArg Int.ofNat (ofNat_inj same)
    | negSucc => exact (unsigned _ _ same).elim
  | negSucc number =>
    cases other with
    | ofNat => exact (unsigned _ _ same.symm).elim
    | negSucc => exact congrArg Int.negSucc (Nat.succ.inj (ofNat_inj (List.cons.inj same).2))

end Text

namespace Decimal

open Text (OneLine)

theorem oneLine_zeros (count : Nat) : OneLine (List.replicate count (.scalar '0')) :=
  fun member => absurd (List.eq_of_mem_replicate member) (by decide)

theorem oneLine_significantDigits {digits : Text} (oneLine : OneLine digits) :
    OneLine (significantDigits digits) := by
  intro member
  have inDropped := (List.dropWhile_suffix _).subset (List.mem_reverse.mp member)
  exact oneLine (List.mem_reverse.mp inDropped)

/-- A float stands in one line in both of its notations. -/
theorem oneLine_positional {digits : Text} (oneLine : OneLine digits) (places : Int) :
    OneLine (positional digits places) := by
  unfold positional
  split
  · exact .cons (by decide) (.cons (by decide) (.append (oneLine_zeros _) oneLine))
  dsimp only
  split
  · exact .append (.append oneLine (oneLine_zeros _)) (by decide)
  · refine .append (fun member => oneLine (List.mem_of_mem_take member)) (.cons (by decide) ?_)
    exact fun member => oneLine (List.mem_of_mem_drop member)

theorem oneLine_exponentText (format : NumberFormat) (exponent : Int) :
    OneLine (exponentText format exponent) := by
  refine .cons (by decide) (.cons ?_ (.append (oneLine_zeros _) (Text.oneLine_ofNat _)))
  split <;> decide

theorem oneLine_scientific
    {digits : Text}
    (oneLine : OneLine digits)
    (format : NumberFormat)
    (places : Int) :
    OneLine (scientific format digits places) := by
  refine .append ?_ (oneLine_exponentText _ _)
  split
  · intro member
    refine oneLine ?_
    simpa using member
  · exact oneLine

/-- So it does in any case, also if it is no number. -/
theorem oneLine_floatText (number : Float) : OneLine (floatText number) := by
  unfold floatText
  split
  · decide
  refine .append ?_ ?_
  · split <;> decide
  split
  · decide
  split
  · decide
  have digits (decimal : Scaled) := oneLine_significantDigits (Text.oneLine_ofNat decimal.digits)
  unfold Scaled.text
  dsimp only
  split
  · exact oneLine_positional (digits _) _
  · exact oneLine_scientific (digits _) _ _

end Decimal

namespace TokenKind

/-- The list of all kinds is complete. -/
theorem mem_all (kind : TokenKind) : kind ∈ all := by
  cases kind with
  | mark mark => cases mark <;> decide
  | _ => decide

/-- The name of a kind determines it. -/
theorem name_inj
    {kind other : TokenKind}
    (same : Text.ofString kind.name = Text.ofString other.name) :
    kind = other := by
  have distinct : (all.map fun kind => Text.ofString kind.name).Nodup := by decide +kernel
  exact List.inj_on_of_nodup_map distinct (mem_all kind) (mem_all other) same

/-- No name of a kind has a line feed in it. -/
theorem oneLine_name (kind : TokenKind) : Text.OneLine (Text.ofString kind.name) := by
  cases kind with
  | mark mark => cases mark <;> decide
  | _ => decide

end TokenKind

/-! ## Lines of outlines -/

namespace Outline

open Text (OneLine)

/-- Lines, each with its end, in front of a text. -/
def written (lines : List Text) (rest : Text) : Text :=
  lines.foldr (fun line text => line ++ .scalar '\n' :: text) rest

/-- Where two outlines are written alike in front of further text, something holds, and the
further text is the same. -/
def Tells (outline other : Outline) (holds : Prop) : Prop :=
  ∀ depth rest more, written (outline.lines depth) rest = written (other.lines depth) more →
    holds ∧ rest = more

/-- The same of outlines one below the other, in front of the bracket that closes them. -/
def TellsAll (outlines others : List Outline) (holds : Prop) : Prop :=
  ∀ depth rest more,
    written (linesAll (depth + 1) outlines) (written [line depth "]"] rest) =
      written (linesAll (depth + 1) others) (written [line depth "]"] more) →
    holds ∧ rest = more

/-- The same of fields. -/
def TellsFields (fields others : List OutlineField) (holds : Prop) : Prop :=
  ∀ depth rest more,
    written (OutlineField.linesAll depth fields) rest =
      written (OutlineField.linesAll depth others) more →
    holds ∧ rest = more

variable {depth : Nat} {content other rest more : Text} {lines others : List Text} {holds : Prop}

/-- Lines are written one after the other. -/
@[simp] theorem written_append (lines others : List Text) (rest : Text) :
    written (lines ++ others) rest = written lines (written others rest) :=
  List.foldr_append

/-- A line is written with its indentation and its end. -/
theorem written_cons (content : Text) (lines : List Text) (rest : Text) :
    written (line depth content :: lines) rest =
      List.replicate (2 * depth) (.scalar ' ') ++ (content ++ .scalar '\n' :: written lines rest) :=
  List.append_assoc ..

/-- Lines at one depth are told apart by what they hold. -/
theorem cut_line
    (first : OneLine content)
    (second : OneLine other)
    (same : written (line depth content :: lines) rest =
      written (line depth other :: others) more) :
    content = other ∧ written lines rest = written others more := by
  rw [written_cons, written_cons] at same
  exact first.cut second (List.append_cancel_left same)

/-- A line that two texts start with can be cut off both. -/
theorem cut_same
    (same : written (line depth content :: lines) rest =
      written (line depth content :: others) more) :
    written lines rest = written others more := by
  rw [written_cons, written_cons] at same
  exact (List.cons.inj (List.append_cancel_left (List.append_cancel_left same))).2

/-- A closing bracket stands further left than what it closes. -/
theorem close_ne :
    written (line depth "]" :: lines) rest ≠ written (line (depth + 1) content :: others) more := by
  intro same
  rw [written_cons, written_cons, Nat.mul_add, List.replicate_add, List.append_assoc] at same
  cases (List.cons.inj (List.append_cancel_left same)).1

/-- Lines in front of the bracket that closes them are told apart. -/
theorem cut_texts
    {texts otherTexts : List Text}
    (first : ∀ text ∈ texts, OneLine text)
    (second : ∀ text ∈ otherTexts, OneLine text)
    (same : written (texts.map (line (depth + 1))) (written [line depth "]"] rest) =
      written (otherTexts.map (line (depth + 1))) (written [line depth "]"] more)) :
    texts = otherTexts ∧ rest = more := by
  induction texts generalizing otherTexts with
  | nil =>
    cases otherTexts with
    | nil => exact ⟨rfl, cut_same same⟩
    | cons => exact (close_ne same).elim
  | cons text texts hypothesis =>
    cases otherTexts with
    | nil => exact (close_ne same.symm).elim
    | cons otherText otherTexts =>
      obtain ⟨firstText, firstTexts⟩ := List.forall_mem_cons.mp first
      obtain ⟨secondText, secondTexts⟩ := List.forall_mem_cons.mp second
      obtain ⟨rfl, further⟩ := cut_line firstText secondText same
      obtain ⟨rfl, sameRest⟩ := hypothesis firstTexts secondTexts further
      exact ⟨rfl, sameRest⟩

/-- An outline starts with the line of its name. -/
theorem exists_lines (outline : Outline) (depth : Nat) :
    ∃ fields, outline.lines depth = line depth outline.name :: fields := by
  cases outline with
  | node => exact ⟨_, rfl⟩

/-- The name of a node says what it is. -/
theorem tells_of_ne
    {name otherName : String} {span otherSpan : Span} {fields otherFields : List OutlineField}
    (apart : OneLine name ∧ OneLine otherName ∧ (name : Text) ≠ otherName) :
    Tells (.node name span fields) (.node otherName otherSpan otherFields) holds := by
  intro depth rest more same
  exact (apart.2.2 (cut_line apart.1 apart.2.1 same).1).elim

namespace TellsAll

variable {outline otherOutline : Outline} {outlines otherOutlines : List Outline}

/-- Without outlines only the closing bracket is left. -/
theorem nil (holding : holds) : TellsAll [] [] holds :=
  fun _ _ _ same => ⟨holding, cut_same same⟩

/-- An outline is not taken for the bracket that closes a list. -/
theorem nil_cons : TellsAll [] (outline :: outlines) holds := by
  intro depth rest more same
  obtain ⟨fields, shape⟩ := exists_lines outline (depth + 1)
  rw [linesAll, linesAll, shape] at same
  exact (close_ne same).elim

theorem cons_nil : TellsAll (outline :: outlines) [] holds :=
  fun depth rest more same => (nil_cons depth more rest same.symm).imp_right Eq.symm

/-- Lists of outlines tell what their members tell, one after the other. -/
theorem cons
    {first others : Prop}
    (tells : Tells outline otherOutline first)
    (further : TellsAll outlines otherOutlines others)
    (implies : first → others → holds) :
    TellsAll (outline :: outlines) (otherOutline :: otherOutlines) holds := by
  intro depth rest more same
  rw [linesAll, linesAll, written_append, written_append] at same
  obtain ⟨holdsFirst, same⟩ := tells _ _ _ same
  obtain ⟨holdsOthers, same⟩ := further _ _ _ same
  exact ⟨implies holdsFirst holdsOthers, same⟩

end TellsAll

namespace TellsFields

variable {label name : String} {fields otherFields : List OutlineField} {span otherSpan : Span}
  {first : Prop}

/-- Outlines with the same name tell what their fields tell. -/
theorem node
    (tells : TellsFields fields otherFields holds) :
    Tells (.node name span fields) (.node name otherSpan otherFields) holds :=
  fun _ _ _ same => tells _ _ _ (cut_same same)

theorem nil (holding : holds) : TellsFields [] [] holds :=
  fun _ _ _ same => ⟨holding, same⟩

/-- A text in one line can be read off its field. -/
theorem text
    (first : OneLine content)
    (second : OneLine other)
    (further : content = other → TellsFields fields otherFields holds) :
    TellsFields (.text label content :: fields) (.text label other :: otherFields) holds := by
  intro depth rest more same
  rw [OutlineField.linesAll, OutlineField.linesAll, written_append, written_append,
    OutlineField.lines, OutlineField.lines, written_cons, written_cons] at same
  simp only [List.append_assoc, List.append_cancel_left_eq] at same
  obtain ⟨sameContent, same⟩ := first.cut second same
  exact further sameContent depth rest more same

/-- A child tells what it is, and then the fields behind it do. -/
theorem child
    {child otherChild : Outline}
    (tells : Tells child otherChild first)
    (further : first → TellsFields fields otherFields holds) :
    TellsFields (.child label child :: fields) (.child label otherChild :: otherFields) holds := by
  intro depth rest more same
  rw [OutlineField.linesAll, OutlineField.linesAll, written_append, written_append] at same
  obtain ⟨holdsFirst, same⟩ := tells _ _ _ (cut_same same)
  exact further holdsFirst depth rest more same

/-- So do several children. -/
theorem children
    {children otherChildren : List Outline}
    (tells : TellsAll children otherChildren first)
    (further : first → TellsFields fields otherFields holds) :
    TellsFields (.children label children :: fields) (.children label otherChildren :: otherFields)
      holds := by
  intro depth rest more same
  rw [OutlineField.linesAll, OutlineField.linesAll, written_append, written_append] at same
  have inside := cut_same same
  rw [written_append, written_append] at inside
  obtain ⟨holdsFirst, same⟩ := tells _ _ _ inside
  exact further holdsFirst depth rest more same

/-- Texts in one line each can be read off their field. -/
theorem texts
    {texts otherTexts : List Text}
    (first : ∀ text ∈ texts, OneLine text)
    (second : ∀ text ∈ otherTexts, OneLine text)
    (further : texts = otherTexts → TellsFields fields otherFields holds) :
    TellsFields (.texts label texts :: fields) (.texts label otherTexts :: otherFields) holds := by
  intro depth rest more same
  rw [OutlineField.linesAll, OutlineField.linesAll, written_append, written_append] at same
  have inside := cut_same same
  rw [written_append, written_append] at inside
  obtain ⟨sameTexts, same⟩ := cut_texts first second inside
  exact further sameTexts depth rest more same

/-- A node with nothing but a text. -/
theorem leaf
    (first : OneLine content)
    (second : OneLine other)
    (implies : content = other → holds) :
    Tells (.node name span [.text label content])
      (.node name otherSpan [.text label other]) holds :=
  node (text first second fun same => nil (implies same))

/-- A node with nothing but a list. -/
theorem list
    {outlines otherOutlines : List Outline}
    (tells : TellsAll outlines otherOutlines first)
    (implies : first → holds) :
    Tells (.node name span [.children label outlines])
      (.node name otherSpan [.children label otherOutlines]) holds :=
  node (children tells fun same => nil (implies same))

end TellsFields

end Outline

/-! ## Trees -/

/-- A float in a tree is a known one. -/
def Node.KnowsFloat (known : Float → Prop) : Node → Prop
  | .expr (.float _ value) => known value
  | _ => True

/-- All floats in a tree are known ones. -/
abbrev Node.Known (known : Float → Prop) : Node → Prop :=
  Node.Throughout (Node.KnowsFloat known)

/-- Known floats with the same text are the same. -/
def TextsTellApart (known : Float → Prop) : Prop :=
  ∀ value other, known value → known other →
    Decimal.floatText value = Decimal.floatText other → value = other

section

open Outline Outline.TellsFields

variable {known : Float → Prop}

mutual

/-- The outlines of two expressions tell their trees apart, constructor by constructor. -/
theorem Expr.tells (toldApart : TextsTellApart known) : ∀ tree other : Expr,
    (Node.expr tree).Known known →
    (Node.expr other).Known known →
    Tells tree.outline other.outline (tree.bare = other.bare)
  | .int _ _, other, _, _ => by
    cases other with
    | int =>
      exact leaf (Text.oneLine_ofInt _) (Text.oneLine_ofInt _)
        fun same => congrArg (Expr.int .nowhere) (Text.ofInt_inj same)
    | _ => exact tells_of_ne (by decide)
  | .float _ _, other, .intro known _, .intro otherKnown _ => by
    cases other with
    | float =>
      exact leaf (Decimal.oneLine_floatText _) (Decimal.oneLine_floatText _)
        fun same => congrArg (Expr.float .nowhere) (toldApart _ _ known otherKnown same)
    | _ => exact tells_of_ne (by decide)
  | .string _ _, other, _, _ => by
    cases other with
    | string =>
      exact leaf (Text.oneLine_dumped _) (Text.oneLine_dumped _)
        fun same => congrArg (Expr.string .nowhere) (Text.dumped_inj same)
    | _ => exact tells_of_ne (by decide)
  | .char _ _, other, _, _ => by
    cases other with
    | char =>
      exact leaf (Text.oneLine_dumped _) (Text.oneLine_dumped _)
        fun same => congrArg (Expr.char .nowhere) (List.cons.inj (Text.dumped_inj same)).1
    | _ => exact tells_of_ne (by decide)
  | .bool _ value, other, _, _ => by
    cases other with
    | bool _ otherValue =>
      refine leaf (by cases value <;> decide) (by cases otherValue <;> decide) fun same => ?_
      cases value <;> cases otherValue <;> first | rfl | cases (List.cons.inj same).1
    | _ => exact tells_of_ne (by decide)
  | .identifier _ _, other, _, _ => by
    cases other with
    | identifier =>
      exact leaf (Text.oneLine_dumped _) (Text.oneLine_dumped _)
        fun same => congrArg (Expr.identifier .nowhere) (Text.dumped_inj same)
    | _ => exact tells_of_ne (by decide)
  | .array _ elements, other, .intro _ parts, .intro _ otherParts => by
    cases other with
    | array _ others =>
      exact list (Expr.tellsAll toldApart elements others (List.forall_mem_map.mp parts)
        (List.forall_mem_map.mp otherParts)) (congrArg (Expr.array .nowhere))
    | _ => exact tells_of_ne (by decide)
  | .set _ elements, other, .intro _ parts, .intro _ otherParts => by
    cases other with
    | set _ others =>
      exact list (Expr.tellsAll toldApart elements others (List.forall_mem_map.mp parts)
        (List.forall_mem_map.mp otherParts)) (congrArg (Expr.set .nowhere))
    | _ => exact tells_of_ne (by decide)
  | .map _ entries, other, .intro _ parts, .intro _ otherParts => by
    cases other with
    | map _ others =>
      exact list (Entry.tellsAll toldApart entries others (List.forall_mem_map.mp parts)
        (List.forall_mem_map.mp otherParts)) (congrArg (Expr.map .nowhere))
    | _ => exact tells_of_ne (by decide)
  | .binary _ left _ right, other, .intro _ parts, .intro _ otherParts => by
    cases other with
    | binary _ otherLeft _ otherRight =>
      refine node (child
        (left.tells toldApart otherLeft (parts _ (.head _)) (otherParts _ (.head _)))
        fun sameLeft => text (TokenKind.oneLine_name _) (TokenKind.oneLine_name _)
        fun sameName => child (right.tells toldApart otherRight (parts _ (.tail _ (.head _)))
          (otherParts _ (.tail _ (.head _)))) fun sameRight => nil ?_)
      rw [Expr.bare, Expr.bare, sameLeft, TokenKind.name_inj sameName, sameRight]
    | _ => exact tells_of_ne (by decide)
  | .function _ parameters body, other, .intro _ parts, .intro _ otherParts => by
    cases other with
    | function _ others otherBody =>
      have oneLine (names : List Text) : ∀ text ∈ names.map Text.dumped, Text.OneLine text :=
        List.forall_mem_map.mpr fun name _ => Text.oneLine_dumped name
      refine node (texts (oneLine parameters) (oneLine others) fun sameNames =>
        child (body.tells toldApart otherBody (parts _ (.head _)) (otherParts _ (.head _)))
        fun same => nil ?_)
      rw [Expr.bare, Expr.bare, same,
        List.map_injective_iff.mpr (fun _ _ => Text.dumped_inj) sameNames]
    | _ => exact tells_of_ne (by decide)
  | .call _ callee arguments, other, .intro _ parts, .intro _ otherParts => by
    cases other with
    | call _ otherCallee others =>
      obtain ⟨first, parts⟩ := List.forall_mem_cons.mp parts
      obtain ⟨otherFirst, otherParts⟩ := List.forall_mem_cons.mp otherParts
      refine node (child (callee.tells toldApart otherCallee first otherFirst) fun same =>
        children (Expr.tellsAll toldApart arguments others (List.forall_mem_map.mp parts)
          (List.forall_mem_map.mp otherParts)) fun sameAll => nil ?_)
      rw [Expr.bare, Expr.bare, same, sameAll]
    | _ => exact tells_of_ne (by decide)
  | .index _ target key, other, .intro _ parts, .intro _ otherParts => by
    cases other with
    | index _ otherTarget otherKey =>
      refine node (child
        (target.tells toldApart otherTarget (parts _ (.head _)) (otherParts _ (.head _)))
        fun sameTarget => child (key.tells toldApart otherKey (parts _ (.tail _ (.head _)))
          (otherParts _ (.tail _ (.head _)))) fun sameKey => nil ?_)
      rw [Expr.bare, Expr.bare, sameTarget, sameKey]
    | _ => exact tells_of_ne (by decide)
  | .block _ statements, other, .intro _ parts, .intro _ otherParts => by
    cases other with
    | block _ others =>
      exact list (Stmt.tellsAll toldApart statements others (List.forall_mem_map.mp parts)
        (List.forall_mem_map.mp otherParts)) (congrArg (Expr.block .nowhere))
    | _ => exact tells_of_ne (by decide)

theorem Expr.tellsAll (toldApart : TextsTellApart known) : ∀ trees others : List Expr,
    (∀ tree ∈ trees, (Node.expr tree).Known known) →
    (∀ other ∈ others, (Node.expr other).Known known) →
    TellsAll (Expr.outlines trees) (Expr.outlines others) (Expr.bareAll trees = Expr.bareAll others)
  | [], [], _, _ => .nil rfl
  | [], _ :: _, _, _ => .nil_cons
  | _ :: _, [], _, _ => .cons_nil
  | tree :: trees, other :: others, floats, otherFloats => by
    obtain ⟨first, floats⟩ := List.forall_mem_cons.mp floats
    obtain ⟨otherFirst, otherFloats⟩ := List.forall_mem_cons.mp otherFloats
    refine .cons (tree.tells toldApart other first otherFirst)
      (Expr.tellsAll toldApart trees others floats otherFloats) fun same sameAll => ?_
    rw [Expr.bareAll, Expr.bareAll, same, sameAll]

/-- So do those of entries, by their keys and values. -/
theorem Entry.tells (toldApart : TextsTellApart known) : ∀ tree other : Entry,
    (Node.entry tree).Known known →
    (Node.entry other).Known known →
    Tells tree.outline other.outline (tree.bare = other.bare)
  | .pair _ key value, .pair _ otherKey otherValue, .intro _ parts, .intro _ otherParts => by
    refine node (child (key.tells toldApart otherKey (parts _ (.head _)) (otherParts _ (.head _)))
      fun sameKey => child (value.tells toldApart otherValue (parts _ (.tail _ (.head _)))
        (otherParts _ (.tail _ (.head _)))) fun sameValue => nil ?_)
    rw [Entry.bare, Entry.bare, sameKey, sameValue]

theorem Entry.tellsAll (toldApart : TextsTellApart known) : ∀ trees others : List Entry,
    (∀ tree ∈ trees, (Node.entry tree).Known known) →
    (∀ other ∈ others, (Node.entry other).Known known) →
    TellsAll (Entry.outlines trees) (Entry.outlines others)
      (Entry.bareAll trees = Entry.bareAll others)
  | [], [], _, _ => .nil rfl
  | [], _ :: _, _, _ => .nil_cons
  | _ :: _, [], _, _ => .cons_nil
  | tree :: trees, other :: others, floats, otherFloats => by
    obtain ⟨first, floats⟩ := List.forall_mem_cons.mp floats
    obtain ⟨otherFirst, otherFloats⟩ := List.forall_mem_cons.mp otherFloats
    refine .cons (tree.tells toldApart other first otherFirst)
      (Entry.tellsAll toldApart trees others floats otherFloats) fun same sameAll => ?_
    rw [Entry.bareAll, Entry.bareAll, same, sameAll]

/-- So do those of statements; the name of a binding tells whether it is mutable. -/
theorem Stmt.tells (toldApart : TextsTellApart known) : ∀ tree other : Stmt,
    (Node.stmt tree).Known known →
    (Node.stmt other).Known known →
    Tells tree.outline other.outline (tree.bare = other.bare)
  | .binding _ mutable _ value, other, .intro _ parts, .intro _ otherParts => by
    cases other with
    | binding _ otherMutable _ otherValue =>
      have inside := value.tells toldApart otherValue (parts _ (.head _)) (otherParts _ (.head _))
      cases mutable <;> cases otherMutable
      case false.true | true.false => exact tells_of_ne (by decide)
      all_goals
        refine node (text (Text.oneLine_dumped _) (Text.oneLine_dumped _)
          fun sameName => child inside fun same => nil ?_)
        rw [Stmt.bare, Stmt.bare, same, Text.dumped_inj sameName]
    | _ => cases mutable <;> exact tells_of_ne (by decide)
  | .assignment _ _ value, other, .intro _ parts, .intro _ otherParts => by
    cases other with
    | assignment _ _ otherValue =>
      refine node (text (Text.oneLine_dumped _) (Text.oneLine_dumped _) fun sameName =>
        child (value.tells toldApart otherValue (parts _ (.head _)) (otherParts _ (.head _)))
        fun same => nil ?_)
      rw [Stmt.bare, Stmt.bare, same, Text.dumped_inj sameName]
    | binding _ otherMutable => cases otherMutable <;> exact tells_of_ne (by decide)
    | expression => exact tells_of_ne (by decide)
  | .expression _ value, other, .intro _ parts, .intro _ otherParts => by
    cases other with
    | expression _ otherValue =>
      refine node (child
        (value.tells toldApart otherValue (parts _ (.head _)) (otherParts _ (.head _)))
        fun same => nil ?_)
      rw [Stmt.bare, Stmt.bare, same]
    | binding _ otherMutable => cases otherMutable <;> exact tells_of_ne (by decide)
    | assignment => exact tells_of_ne (by decide)

theorem Stmt.tellsAll (toldApart : TextsTellApart known) : ∀ trees others : List Stmt,
    (∀ tree ∈ trees, (Node.stmt tree).Known known) →
    (∀ other ∈ others, (Node.stmt other).Known known) →
    TellsAll (Stmt.outlines trees) (Stmt.outlines others) (Stmt.bareAll trees = Stmt.bareAll others)
  | [], [], _, _ => .nil rfl
  | [], _ :: _, _, _ => .nil_cons
  | _ :: _, [], _, _ => .cons_nil
  | tree :: trees, other :: others, floats, otherFloats => by
    obtain ⟨first, floats⟩ := List.forall_mem_cons.mp floats
    obtain ⟨otherFirst, otherFloats⟩ := List.forall_mem_cons.mp otherFloats
    refine .cons (tree.tells toldApart other first otherFirst)
      (Stmt.tellsAll toldApart trees others floats otherFloats) fun same sameAll => ?_
    rw [Stmt.bareAll, Stmt.bareAll, same, sameAll]

end

/-- The outline of a program determines its tree, if the text of its floats determines these. -/
theorem Program.tells
    {program other : Program}
    (toldApart : TextsTellApart known)
    (floats : (Node.program program).Known known)
    (otherFloats : (Node.program other).Known known) :
    Tells program.outline other.outline
      (Stmt.bareAll program.statements = Stmt.bareAll other.statements) := by
  obtain ⟨-, parts⟩ := floats
  obtain ⟨-, otherParts⟩ := otherFloats
  exact list (Stmt.tellsAll toldApart _ _ (List.forall_mem_map.mp parts)
    (List.forall_mem_map.mp otherParts)) id

end

/-- Lines with their ends are lines with ends between them, and one more end. -/
theorem Outline.written_eq_join (line : Text) (lines : List Text) :
    written (line :: lines) [] =
      Text.join [.scalar '\n'] (line :: lines) ++ [CodePoint.scalar '\n'] := by
  induction lines generalizing line with
  | nil => rfl
  | cons next lines hypothesis =>
    show line ++ .scalar '\n' :: written (next :: lines) [] =
      line ++ [CodePoint.scalar '\n'] ++ Text.join [.scalar '\n'] (next :: lines) ++
        [CodePoint.scalar '\n']
    rw [hypothesis]
    simp

/-- The text of an outline is what its lines are written as. -/
theorem Node.written_outline (node : Node) :
    Outline.written (node.outline.lines 0) [] = node.outlineText ++ [CodePoint.scalar '\n'] := by
  obtain ⟨fields, shape⟩ := Outline.exists_lines node.outline 0
  rw [Node.outlineText, shape, Outline.written_eq_join]

/-- Programs that are written as the same outline have the same tree, apart from spans, if their
floats are told apart by their texts. -/
theorem outline_determines_program
    (known : Float → Prop)
    (program other : Program)
    (toldApart : ∀ value otherValue, known value → known otherValue →
      Decimal.floatText value = Decimal.floatText otherValue → value = otherValue)
    (floats : (Node.program program).Known known)
    (otherFloats : (Node.program other).Known known)
    (same : (Node.program program).outlineText = (Node.program other).outlineText) :
    Stmt.bareAll program.statements = Stmt.bareAll other.statements := by
  have sameLines : Outline.written (program.outline.lines 0) [] =
      Outline.written (other.outline.lines 0) [] := by
    have written := (Node.program program).written_outline
    rw [same, ← Node.written_outline] at written
    exact written
  exact (Program.tells toldApart floats otherFloats 0 [] [] sameLines).1

/-- A program with parameters, a string of two lines and a float, all nodes at one span. -/
def outlineSample (span : Span) : Program :=
  ⟨span, [.binding span false "f" (.function span ["x", "y"]
    (.call span (.identifier span "x") [.string span "a\nb", .float span 1.5]))]⟩

theorem known_outlineSample (span : Span) :
    (Node.program (outlineSample span)).Known (· = 1.5) := by
  have leaf {root : Expr} (noParts : Node.parts (.expr root) = [])
      (here : Node.KnowsFloat (· = 1.5) (.expr root)) : (Node.expr root).Known (· = 1.5) :=
    .intro here (noParts ▸ List.forall_mem_nil _)
  refine .intro trivial (List.forall_mem_singleton.mpr (.intro trivial
    (List.forall_mem_singleton.mpr (.intro trivial
      (List.forall_mem_singleton.mpr (.intro trivial ?_))))))
  exact List.forall_mem_cons.mpr ⟨leaf rfl trivial,
    List.forall_mem_cons.mpr ⟨leaf rfl trivial, List.forall_mem_singleton.mpr (leaf rfl rfl)⟩⟩

/-- Programs with the same outline and different spans. -/
theorem outline_determines_program_sample :
    ((Node.program (outlineSample ⟨none, .origin, .origin⟩)).outlineText =
      (Node.program (outlineSample ⟨some "s", .origin, .origin⟩)).outlineText) ∧
    Stmt.bareAll (outlineSample ⟨none, .origin, .origin⟩).statements =
      Stmt.bareAll (outlineSample ⟨some "s", .origin, .origin⟩).statements :=
  ⟨rfl, outline_determines_program (· = 1.5) _ _
    (fun _ _ known otherKnown _ => known.trans otherKnown.symm) (known_outlineSample _)
    (known_outlineSample _) rfl⟩

end Offside
