import StackIR.Proofs.AcyclicOutlines
import StackIR.Proofs.Quoting

/-!
# Outlines are read back

The text of an outline tells all it shows. What it shows is a sketch: at each place a symbol, which
is an operation with what belongs to it or a reference back, and the sketches of the operands.

A symbol is read from left to right. Its first characters tell its kind (`Symbol.initials_eq`), and
where it ends is told by what stands behind it (`Follows`): a name, an id or a literal ends before a
blank or a parenthesis, a cell with its bracket and a quoted text with its quote. No operand begins
with a quote or with the letter of a number of uses, so it is clear whether these belong to the
symbol.
-/

namespace StackIR

/-! ## Symbols and sketches -/

/-- What an outline shows at one place, up to the operands. -/
inductive Symbol where
  | literal (value : Literal)
  | pointer (label info : String)
  | runtimeCall (name : String) (isAsync : Bool)
  | procCall (callee : ProcId) (isAsync : Bool)
  | shared (e : ExprId) (uses? : Option Nat)
  | field (index : Nat)
  | store
  | cell (text : String)
  | retain
  | release
  | sequence
  | jumpValue
  /-- A reference back to a shared node. -/
  | again (e : ExprId)
deriving Repr, DecidableEq

/-- A symbol with the sketches of its operands. -/
inductive Sketch where
  | node (symbol : Symbol) (operands : List Sketch)
deriving Repr

/-- What is shown of a node that is shown in full. -/
def Node.symbol (n : Node) (e : ExprId) (uses? : Option Nat) : Symbol :=
  match n with
  | .literal value => .literal value
  | .pointer label info => .pointer label info
  | .runtimeCall name isAsync _ => .runtimeCall name isAsync
  | .procCall callee isAsync _ => .procCall callee isAsync
  | .shared _ => .shared e uses?
  | .field _ index => .field index
  | .store .. => .store
  | .cell c => .cell c.text
  | .retain _ => .retain
  | .release _ => .release
  | .sequence _ => .sequence
  | .jumpValue => .jumpValue

namespace Outline

mutual

/-- What an outline shows, with the number of uses of a shared node where known. -/
def sketch (uses : ExprId → Option Nat) : Outline → Sketch
  | .again e => .node (.again e) []
  | .full e n operands => .node (n.symbol e (uses e)) (sketches uses operands)

def sketches (uses : ExprId → Option Nat) : List Outline → List Sketch
  | [] => []
  | o :: os => o.sketch uses :: sketches uses os

end

end Outline

/-! ## The text of a sketch -/

namespace Symbol

/-- Whether a symbol stands without parentheses. -/
def isAtom : Symbol → Bool
  | .literal _ | .pointer .. | .cell _ | .jumpValue | .again _ => true
  | _ => false

/-- The text of a symbol, with the parenthesis before it if it has one. -/
def text : Symbol → String
  | .literal value => value.text
  | .pointer label info => "&" ++ label ++ if info.isEmpty then "" else " " ++ Text.quote info
  | .runtimeCall name isAsync => (if isAsync then "(call.async " else "(call ") ++ name
  | .procCall callee isAsync =>
    (if isAsync then "(proccall.async #" else "(proccall #") ++ callee.toNat.repr
  | .shared e uses? => "(shared#" ++ e.repr ++ uses?.elim "" fun uses => " x" ++ uses.repr
  | .field index => "(field." ++ index.repr
  | .store => "(store"
  | .cell text => text
  | .retain => "(incr"
  | .release => "(decr"
  | .sequence => "(seq"
  | .jumpValue => "jmp_value"
  | .again e => "@" ++ e.repr

end Symbol

namespace Sketch

mutual

def text : Sketch → String
  | .node x operands => if x.isAtom then x.text else x.text ++ operandsText operands ++ ")"

def operandsText : List Sketch → String
  | [] => ""
  | s :: ss => " " ++ s.text ++ operandsText ss

end

end Sketch

theorem Node.atom?_eq (n : Node) (e : ExprId) (uses? : Option Nat) :
    n.atom? = if (n.symbol e uses?).isAtom then some (n.symbol e uses?).text else none := by
  cases n with
  | pointer label info =>
      show some _ = some _
      congr 1
      split <;> simp_all [symbol, Symbol.text, String.append_assoc]
  | _ => rfl

theorem Node.head_eq_text {n : Node} {e : ExprId} {uses? : Option Nat}
    (h : (n.symbol e uses?).isAtom = false) : "(" ++ n.head e uses? = (n.symbol e uses?).text := by
  cases n with
  | literal _ | pointer _ _ | cell _ | jumpValue => cases h
  | runtimeCall name isAsync args =>
      cases isAsync <;> exact (String.append_assoc ..).symm
  | procCall callee isAsync args => cases isAsync <;> exact (String.append_assoc ..).symm
  | shared x => cases uses? <;> simp [symbol, Symbol.text, head, ← String.append_assoc]
  | field x index => exact (String.append_assoc ..).symm
  | store _ _ | retain _ | release _ | sequence _ => rfl

namespace Outline

mutual

/-- The text of an outline is that of its sketch. -/
theorem text_sketch (uses : ExprId → Option Nat) :
    (o : Outline) → (o.sketch uses).text = o.text uses
  | .again e => by
      rw [sketch, text, Sketch.text]
      rfl
  | .full e n operands => by
      rw [sketch, text, Sketch.text, n.atom?_eq e (uses e)]
      cases hatom : (n.symbol e (uses e)).isAtom with
      | true => rfl
      | false =>
          have hoperands := operandsText_sketches uses operands
          simp only [hoperands, Node.head_eq_text hatom, Bool.false_eq_true, if_false]

theorem operandsText_sketches (uses : ExprId → Option Nat) :
    (os : List Outline) → Sketch.operandsText (sketches uses os) = operandsText uses os
  | [] => by rw [sketches, operandsText, Sketch.operandsText]
  | o :: os => by
      rw [sketches, operandsText, Sketch.operandsText, text_sketch uses o,
        operandsText_sketches uses os]

end

end Outline

/-! ## Behind a symbol -/

/-- What may stand behind a symbol: nothing, the end of the operands, or another operand. -/
def Follows (r : List Char) : Prop :=
  r = [] ∨ (∃ s, r = ')' :: s) ∨ ∃ c s, r = ' ' :: c :: s ∧ c ≠ '"' ∧ c ≠ 'x'

section Follows

variable {r : List Char}

theorem Follows.ends (h : Follows r) : Ends endsWord r := by
  rcases h with rfl | ⟨r, rfl⟩ | ⟨c, r, rfl, -⟩
  · exact ends_nil endsWord
  · exact ends_cons rfl r
  · exact ends_cons rfl (c :: r)

theorem not_follows_quote : ¬ Follows (' ' :: '"' :: r) := by
  rintro (h | ⟨_, h⟩ | ⟨c, _, h, hquote, -⟩)
  · cases h
  · cases h
  · cases h
    exact hquote rfl

theorem not_follows_uses : ¬ Follows (' ' :: 'x' :: r) := by
  rintro (h | ⟨_, h⟩ | ⟨c, _, h, -, huses⟩)
  · cases h
  · cases h
  · cases h
    exact huses rfl

end Follows

/-! ## Reading symbols -/

namespace Symbol

/-- What has to hold of the names in a symbol for it to be read back. -/
def IsPlain : Symbol → Prop
  | .pointer label _ => IsWord label
  | .runtimeCall name _ => IsWord name
  | .cell text => ∃ inner : String, text = "[" ++ inner ++ "]" ∧ ']' ∉ inner.toList
  | _ => True

/-- The first characters of a kind of symbols, none for literals. -/
def initials : Symbol → List Char
  | .literal _ => []
  | .pointer .. => ['&']
  | .runtimeCall .. => ['(', 'c']
  | .procCall .. => ['(', 'p']
  | .shared .. => ['(', 's', 'h']
  | .field _ => ['(', 'f']
  | .store => ['(', 's', 't']
  | .cell _ => ['[']
  | .retain => ['(', 'i']
  | .release => ['(', 'd']
  | .sequence => ['(', 's', 'e']
  | .jumpValue => ['j']
  | .again _ => ['@']

/-- The first characters of a text as far as they tell the kind of the symbol there. -/
def initialsOf : List Char → List Char
  | '(' :: 's' :: c :: _ => ['(', 's', c]
  | '(' :: c :: _ => ['(', c]
  | c :: _ => if c ∈ ['&', '[', 'j', '@'] then [c] else []
  | [] => []

variable {x y : Symbol} {r s : List Char}

theorem initialsOf_literal (v : Literal) (r : List Char) :
    initialsOf (v.text.toList ++ r) = [] := by
  have hspecial : ∀ d ∈ ['(', '&', '[', 'j', '@'], d.isDigit = false ∧ d ∉ ['-', 't', 'f'] := by
    simp
  obtain ⟨c, cs, htext, hc⟩ := v.exists_text_eq
  have hnot : c ∉ ['(', '&', '[', 'j', '@'] := by
    intro hmem
    obtain ⟨hdigit, hother⟩ := hspecial c hmem
    rcases hc with hc | hc
    · rw [hdigit] at hc
      cases hc
    · exact hother (by simpa using hc)
  rw [htext, List.cons_append]
  unfold initialsOf
  split
  next heq => exact absurd (by rw [(List.cons.inj heq).1]; decide) hnot
  next heq => exact absurd (by rw [(List.cons.inj heq).1]; decide) hnot
  next heq =>
    obtain ⟨rfl, -⟩ := List.cons.inj heq
    exact if_neg fun hmem => hnot (List.mem_cons_of_mem _ hmem)
  next heq => cases heq

/-- A symbol begins with the first characters of its kind. -/
theorem initials_eq (hx : x.IsPlain) (r : List Char) :
    initialsOf (x.text.toList ++ r) = x.initials := by
  cases x with
  | literal value => exact initialsOf_literal value r
  | cell text =>
      obtain ⟨inner, rfl, -⟩ := hx
      simp [Symbol.text, initialsOf, initials]
  | runtimeCall name isAsync => cases isAsync <;> simp [text, initialsOf, initials]
  | procCall callee isAsync => cases isAsync <;> simp [text, initialsOf, initials]
  | _ => simp [text, initialsOf, initials]

/-- The text of a pointer, if it has one, belongs to it. -/
theorem pointer_append_inj {label label' info info' : String} (hlabel : IsWord label)
    (hlabel' : IsWord label') (hr : Follows r) (hs : Follows s)
    (h : (pointer label info).text.toList ++ r = (pointer label' info').text.toList ++ s) :
    pointer label info = pointer label' info' ∧ r = s := by
  have htext : ∀ (label info : String) (r : List Char),
      (pointer label info).text.toList ++ r = '&' :: (label.toList ++
        if info = "" then r else ' ' :: (Text.quoteChars info.toList ++ r)) := by
    intro label info r
    by_cases hinfo : info = "" <;> simp [text, Text.quote, hinfo]
  have htail : ∀ {info : String} {r : List Char}, Follows r → Ends endsWord
      (if info = "" then r else ' ' :: (Text.quoteChars info.toList ++ r)) := by
    intro info r hr
    split
    · exact hr.ends
    · exact ends_cons (by decide) _
  rw [htext, htext] at h
  obtain ⟨rfl, htails⟩ :=
    hlabel.append_inj hlabel' (htail hr) (htail hs) (List.cons.inj h).2
  split at htails <;> split at htails
  next hinfo hinfo' => exact ⟨by rw [hinfo, hinfo'], htails⟩
  next => exact absurd (htails ▸ hr) not_follows_quote
  next => exact absurd (htails ▸ hs) not_follows_quote
  next =>
    obtain ⟨heq, hrest⟩ := Text.quoteChars_append_inj (List.cons.inj htails).2
    exact ⟨by rw [String.toList_inj.mp heq], hrest⟩

/-- The number of uses of a shared node, if it is shown, belongs to it. -/
theorem shared_append_inj {e e' : ExprId} {uses? uses?' : Option Nat} (hr : Follows r)
    (hs : Follows s)
    (h : (shared e uses?).text.toList ++ r = (shared e' uses?').text.toList ++ s) :
    shared e uses? = shared e' uses?' ∧ r = s := by
  have htext : ∀ (e : ExprId) (uses? : Option Nat) (r : List Char),
      (shared e uses?).text.toList ++ r = "(shared#".toList ++ (e.repr.toList ++
        uses?.elim r fun uses => ' ' :: 'x' :: (uses.repr.toList ++ r)) := by
    intro e uses? r
    cases uses? <;> simp [text]
  have htail : ∀ {uses? : Option Nat} {r : List Char}, Follows r → Ends endsWord
      (uses?.elim r fun uses => ' ' :: 'x' :: (uses.repr.toList ++ r)) := by
    intro uses? r hr
    cases uses? with
    | none => exact hr.ends
    | some uses => exact ends_cons (by decide) _
  rw [htext, htext] at h
  obtain ⟨rfl, htails⟩ := repr_append_inj (htail hr) (htail hs) (List.append_cancel_left h)
  cases uses? with
  | none =>
      cases uses?' with
      | none => exact ⟨rfl, htails⟩
      | some uses' =>
          obtain rfl : r = ' ' :: 'x' :: (uses'.repr.toList ++ s) := htails
          exact absurd hr not_follows_uses
  | some uses =>
      cases uses?' with
      | none =>
          obtain rfl : ' ' :: 'x' :: (uses.repr.toList ++ r) = s := htails
          exact absurd hs not_follows_uses
      | some uses' =>
          have htails := (List.cons.inj (List.cons.inj htails).2).2
          obtain ⟨rfl, hrest⟩ := repr_append_inj hr.ends hs.ends htails
          exact ⟨rfl, hrest⟩

theorem runtimeCall_append_inj {name name' : String} {isAsync isAsync' : Bool} (hname : IsWord name)
    (hname' : IsWord name') (hr : Follows r) (hs : Follows s)
    (h : (runtimeCall name isAsync).text.toList ++ r =
      (runtimeCall name' isAsync').text.toList ++ s) :
    runtimeCall name isAsync = runtimeCall name' isAsync' ∧ r = s := by
  simp only [text, String.toList_append, List.append_assoc] at h
  cases isAsync <;> cases isAsync'
  case false.true | true.false => simp at h
  all_goals
    obtain ⟨rfl, hrest⟩ := hname.append_inj hname' hr.ends hs.ends (List.append_cancel_left h)
    exact ⟨rfl, hrest⟩

theorem procCall_append_inj {callee callee' : ProcId} {isAsync isAsync' : Bool} (hr : Follows r)
    (hs : Follows s) (h : (procCall callee isAsync).text.toList ++ r =
      (procCall callee' isAsync').text.toList ++ s) :
    procCall callee isAsync = procCall callee' isAsync' ∧ r = s := by
  simp only [text, String.toList_append, List.append_assoc] at h
  cases isAsync <;> cases isAsync'
  case false.true | true.false => simp at h
  all_goals
    obtain ⟨hcallee, hrest⟩ := repr_append_inj hr.ends hs.ends (List.append_cancel_left h)
    rw [UInt32.toNat_inj.mp hcallee]
    exact ⟨rfl, hrest⟩

theorem cell_append_inj {c c' : String} (hc : (cell c).IsPlain) (hc' : (cell c').IsPlain)
    (h : c.toList ++ r = c'.toList ++ s) : cell c = cell c' ∧ r = s := by
  obtain ⟨inner, rfl, hinner⟩ := hc
  obtain ⟨inner', rfl, hinner'⟩ := hc'
  have hplain : ∀ {inner : List Char}, ']' ∉ inner → ∀ d ∈ inner, (d == ']') = false := by
    intro inner hinner d hd
    rw [beq_eq_false_iff_ne]
    rintro rfl
    exact hinner hd
  have hbracket : "]".toList = [']'] := rfl
  simp only [String.toList_append, List.append_assoc, List.append_cancel_left_eq, hbracket,
    List.singleton_append] at h
  obtain ⟨heq, hrest⟩ := append_inj_of_ends (hplain hinner) (hplain hinner')
    (ends_cons (by decide) r) (ends_cons (by decide) s) h
  rw [String.toList_inj.mp heq]
  exact ⟨rfl, (List.cons.inj hrest).2⟩

/-- A symbol is read back from the text that begins with it. -/
theorem append_inj (hx : x.IsPlain) (hy : y.IsPlain) (hr : Follows r) (hs : Follows s)
    (h : x.text.toList ++ r = y.text.toList ++ s) : x = y ∧ r = s := by
  have hinitials : x.initials = y.initials := by
    rw [← initials_eq hx r, h, initials_eq hy s]
  cases x with
  | literal v =>
      cases y with
      | literal w =>
          obtain ⟨rfl, hrest⟩ := Literal.append_inj hr.ends hs.ends h
          exact ⟨rfl, hrest⟩
      | _ => simp [initials] at hinitials
  | pointer label info =>
      cases y with
      | pointer label' info' => exact pointer_append_inj hx hy hr hs h
      | _ => simp [initials] at hinitials
  | runtimeCall name isAsync =>
      cases y with
      | runtimeCall name' isAsync' => exact runtimeCall_append_inj hx hy hr hs h
      | _ => simp [initials] at hinitials
  | procCall callee isAsync =>
      cases y with
      | procCall callee' isAsync' => exact procCall_append_inj hr hs h
      | _ => simp [initials] at hinitials
  | shared e uses? =>
      cases y with
      | shared e' uses?' => exact shared_append_inj hr hs h
      | _ => simp [initials] at hinitials
  | field index =>
      cases y with
      | field index' =>
          simp only [text, String.toList_append, List.append_assoc,
            List.append_cancel_left_eq] at h
          obtain ⟨rfl, hrest⟩ := repr_append_inj hr.ends hs.ends h
          exact ⟨rfl, hrest⟩
      | _ => simp [initials] at hinitials
  | cell c =>
      cases y with
      | cell c' => exact cell_append_inj hx hy h
      | _ => simp [initials] at hinitials
  | again e =>
      cases y with
      | again e' =>
          simp only [text, String.toList_append, List.append_assoc,
            List.append_cancel_left_eq] at h
          obtain ⟨rfl, hrest⟩ := repr_append_inj hr.ends hs.ends h
          exact ⟨rfl, hrest⟩
      | _ => simp [initials] at hinitials
  | store =>
      cases y with
      | store => exact ⟨rfl, List.append_cancel_left h⟩
      | _ => simp [initials] at hinitials
  | retain =>
      cases y with
      | retain => exact ⟨rfl, List.append_cancel_left h⟩
      | _ => simp [initials] at hinitials
  | release =>
      cases y with
      | release => exact ⟨rfl, List.append_cancel_left h⟩
      | _ => simp [initials] at hinitials
  | sequence =>
      cases y with
      | sequence => exact ⟨rfl, List.append_cancel_left h⟩
      | _ => simp [initials] at hinitials
  | jumpValue =>
      cases y with
      | jumpValue => exact ⟨rfl, List.append_cancel_left h⟩
      | _ => simp [initials] at hinitials

/-- No symbol begins like a quoted text or a number of uses. -/
theorem exists_text_eq (hx : x.IsPlain) :
    ∃ c cs, x.text.toList = c :: cs ∧ c ≠ '"' ∧ c ≠ 'x' := by
  cases x with
  | literal value =>
      obtain ⟨c, cs, htext, hc⟩ := value.exists_text_eq
      refine ⟨c, cs, htext, ?_, ?_⟩ <;> rintro rfl <;> revert hc <;> decide
  | cell text =>
      obtain ⟨inner, rfl, -⟩ := hx
      simp [Symbol.text]
  | runtimeCall name isAsync =>
      cases isAsync <;> exact ⟨'(', _, by simp [text]; rfl, by decide, by decide⟩
  | procCall callee isAsync =>
      cases isAsync <;> exact ⟨'(', _, by simp [text]; rfl, by decide, by decide⟩
  | _ => simp [text]

end Symbol

/-! ## Reading sketches -/

namespace Sketch

mutual

/-- The names in the symbols are plain, and only a symbol in parentheses has operands. -/
def IsPlain : Sketch → Prop
  | .node x operands => x.IsPlain ∧ (x.isAtom = true → operands = []) ∧ EachPlain operands

def EachPlain : List Sketch → Prop
  | [] => True
  | s :: ss => s.IsPlain ∧ EachPlain ss

end

theorem exists_text_eq {s : Sketch} (hs : s.IsPlain) :
    ∃ c cs, s.text.toList = c :: cs ∧ c ≠ '"' ∧ c ≠ 'x' := by
  obtain ⟨x, operands⟩ := s
  rw [IsPlain] at hs
  obtain ⟨c, cs, htext, hc⟩ := Symbol.exists_text_eq hs.1
  rw [text]
  split
  · exact ⟨c, cs, htext, hc⟩
  · refine ⟨c, cs ++ (operandsText operands).toList ++ [')'], ?_, hc⟩
    simp [htext]

/-- Operands, with the parenthesis behind them, may stand behind a symbol. -/
theorem follows_operandsText {ss : List Sketch} (hss : EachPlain ss) (r : List Char) :
    Follows ((operandsText ss).toList ++ ')' :: r) := by
  cases ss with
  | nil => exact Or.inr (Or.inl ⟨r, by simp [operandsText]⟩)
  | cons s ss =>
      rw [EachPlain] at hss
      obtain ⟨c, cs, htext, hc⟩ := exists_text_eq hss.1
      exact Or.inr (Or.inr ⟨c, cs ++ ((operandsText ss).toList ++ ')' :: r), by
        simp [operandsText, htext], hc⟩)

/-- What stands behind the symbol of a sketch: its operands, if it has a parenthesis, and then what
stands behind the sketch. -/
def behind (x : Symbol) (operands : List Sketch) (r : List Char) : List Char :=
  if x.isAtom then r else (operandsText operands).toList ++ ')' :: r

theorem text_append (x : Symbol) (operands : List Sketch) (r : List Char) :
    (node x operands).text.toList ++ r = x.text.toList ++ behind x operands r := by
  rw [text, behind]
  cases x.isAtom <;> simp

theorem follows_behind {x : Symbol} {operands : List Sketch} (h : EachPlain operands)
    {r : List Char} (hr : Follows r) : Follows (behind x operands r) := by
  unfold behind
  split
  · exact hr
  · exact follows_operandsText h r

mutual

/-- A sketch is read back from the text that begins with it. -/
theorem append_inj : ∀ {s s' : Sketch} {r r' : List Char}, s.IsPlain → s'.IsPlain → Follows r →
    Follows r' → s.text.toList ++ r = s'.text.toList ++ r' → s = s' ∧ r = r'
  | .node x operands, .node x' operands', r, r', hs, hs', hr, hr', h => by
      rw [IsPlain] at hs hs'
      obtain ⟨hx, hatom, hoperands⟩ := hs
      obtain ⟨hx', hatom', hoperands'⟩ := hs'
      -- The symbols are the same, so both sketches have parentheses or none has.
      rw [text_append, text_append] at h
      obtain ⟨rfl, hrest⟩ :=
        Symbol.append_inj hx hx' (follows_behind hoperands hr) (follows_behind hoperands' hr') h
      unfold behind at hrest
      cases hcase : x.isAtom with
      | true =>
          rw [hcase, if_pos rfl, if_pos rfl] at hrest
          rw [hatom hcase, hatom' hcase]
          exact ⟨rfl, hrest⟩
      | false =>
          rw [hcase] at hrest
          obtain ⟨rfl, hbehind⟩ := operands_append_inj hoperands hoperands' hrest
          exact ⟨rfl, hbehind⟩

theorem operands_append_inj : ∀ {ss ss' : List Sketch} {r r' : List Char}, EachPlain ss →
    EachPlain ss' → (operandsText ss).toList ++ ')' :: r = (operandsText ss').toList ++ ')' :: r' →
      ss = ss' ∧ r = r'
  | [], [], _, _, _, _, h => ⟨rfl, (List.cons.inj (List.append_cancel_left h)).2⟩
  | [], s' :: ss', _, _, _, _, h => by simp [operandsText] at h
  | s :: ss, [], _, _, _, _, h => by simp [operandsText] at h
  | s :: ss, s' :: ss', r, r', hss, hss', h => by
      rw [EachPlain] at hss hss'
      simp only [operandsText, String.toList_append, List.append_assoc,
        List.append_cancel_left_eq] at h
      obtain ⟨rfl, hrest⟩ := append_inj hss.1 hss'.1 (follows_operandsText hss.2 r)
        (follows_operandsText hss'.2 r') h
      obtain ⟨rfl, hbehind⟩ := operands_append_inj hss.2 hss'.2 hrest
      exact ⟨rfl, hbehind⟩

end

end Sketch

/-! ## Outlines of an arena -/

/-- A name without blanks and closing brackets, such as one of letters, digits and `_`, `:`, `.`. -/
def IsName (name : String) : Prop :=
  ∀ c ∈ name.toList, endsWord c = false ∧ c ≠ ']'

theorem IsName.isWord {name : String} (h : IsName name) : IsWord name := fun c hc => (h c hc).1

/-- The names of calls, pointers and cells are plain. Nothing is asked of the texts of pointers. -/
def Arena.PlainlyNamed (a : Arena) : Prop :=
  ∀ e n, a.get? e = some n → ∀ name, n.name? = some name → IsName name

theorem Cell.exists_text_eq {c : Cell} (h : ∀ name, c.name = some name → IsName name) :
    ∃ inner : String, c.text = "[" ++ inner ++ "]" ∧ ']' ∉ inner.toList := by
  have hname : ']' ∉ (c.name.getD "?").toList := by
    cases hc : c.name with
    | none => decide
    | some name =>
        intro hmem
        exact (h name hc _ hmem).2 rfl
  refine ⟨_, rfl, ?_⟩
  split <;> split <;> simp [hname]

theorem Node.isPlain_symbol {n : Node} (h : ∀ name, n.name? = some name → IsName name) (e : ExprId)
    (uses? : Option Nat) : (n.symbol e uses?).IsPlain := by
  cases n with
  | pointer label info => exact (h label rfl).isWord
  | runtimeCall name isAsync args => exact (h name rfl).isWord
  | cell c => exact Cell.exists_text_eq h
  | _ => trivial

theorem Node.operands_of_isAtom {n : Node} {e : ExprId} {uses? : Option Nat}
    (h : (n.symbol e uses?).isAtom = true) : n.operands = [] := by
  cases n with
  | literal _ | pointer _ _ | cell _ | jumpValue => rfl
  | _ => cases h

namespace Outline

variable {a : Arena}

mutual

theorem isPlain_sketch (ha : a.PlainlyNamed) (uses : ExprId → Option Nat) :
    (o : Outline) → o.Draws a → (o.sketch uses).IsPlain
  | .again e, _ => by
      rw [sketch, Sketch.IsPlain, Sketch.EachPlain]
      exact ⟨trivial, fun _ => rfl, trivial⟩
  | .full e n operands, h => by
      rw [Draws] at h
      obtain ⟨hn, hlength, hoperands⟩ := h
      rw [sketch, Sketch.IsPlain]
      refine ⟨Node.isPlain_symbol (ha e n hn) e (uses e), fun hatom => ?_,
        eachPlain_sketches ha uses operands hoperands⟩
      rw [Node.operands_of_isAtom hatom] at hlength
      rw [List.length_eq_zero_iff.mp hlength, sketches]

theorem eachPlain_sketches (ha : a.PlainlyNamed) (uses : ExprId → Option Nat) :
    (os : List Outline) → DrawsEach a os → Sketch.EachPlain (sketches uses os)
  | [], _ => by
      rw [sketches, Sketch.EachPlain]
      trivial
  | o :: os, h => by
      rw [DrawsEach] at h
      rw [sketches, Sketch.EachPlain]
      exact ⟨isPlain_sketch ha uses o h.1, eachPlain_sketches ha uses os h.2⟩

end

/-- Outlines with plain names have the same text just when they show the same. -/
theorem text_eq_iff {b : Arena} (ha : a.PlainlyNamed) (hb : b.PlainlyNamed) {o o' : Outline}
    (ho : o.Draws a) (ho' : o'.Draws b) (uses uses' : ExprId → Option Nat) :
    o.text uses = o'.text uses' ↔ o.sketch uses = o'.sketch uses' := by
  rw [← text_sketch, ← text_sketch]
  constructor
  · intro htext
    have hlist : (o.sketch uses).text.toList ++ [] = (o'.sketch uses').text.toList ++ [] := by
      rw [htext]
    exact (Sketch.append_inj (isPlain_sketch ha uses o ho) (isPlain_sketch hb uses' o' ho')
      (Or.inl rfl) (Or.inl rfl) hlist).1
  · exact congrArg Sketch.text

end Outline

namespace Arena

/-- The outline of a node by itself. It is the one that is found where operands stand before their
nodes. -/
def IsOutline (a : Arena) (e : ExprId) (o : Outline) : Prop :=
  ∃ shown, a.Outlines e ∅ o shown ∧ (a.OperandsPrecede → a.outline e ∅ = some (o, shown))

theorem Acyclic.exists_isOutline {a : Arena} (ha : a.Acyclic) {e : ExprId} (he : e < a.size) :
    ∃ o, a.IsOutline e o := by
  obtain ⟨o, shown, ho⟩ := ha.exists_outlines he ∅
  exact ⟨o, shown, ho, fun hprec => (hprec.outline_eq_some_iff he).mpr ho⟩

theorem IsOutline.draws {a : Arena} {e : ExprId} {o : Outline} (h : a.IsOutline e o) :
    o.Draws a := by
  obtain ⟨shown, ho, -⟩ := h
  exact ho.draws

/-- Two expressions of acyclic arenas with plain names have outlines, and these have the same text
just when they show the same. The uses of shared nodes may be known or not. -/
theorem exists_outlines_text_eq_iff {a b : Arena} (ha : a.Acyclic) (hb : b.Acyclic)
    (hnames : a.PlainlyNamed) (hnames' : b.PlainlyNamed) {e f : ExprId} (he : e < a.size)
    (hf : f < b.size) (uses uses' : ExprId → Option Nat) :
    ∃ o o', a.IsOutline e o ∧ b.IsOutline f o' ∧
      (o.text uses = o'.text uses' ↔ o.sketch uses = o'.sketch uses') := by
  obtain ⟨o, ho⟩ := ha.exists_isOutline he
  obtain ⟨o', ho'⟩ := hb.exists_isOutline hf
  exact ⟨o, o', ho, ho', Outline.text_eq_iff hnames hnames' ho.draws ho'.draws uses uses'⟩

/-- A call on a pointer that has a text. -/
def quotedPointer : Arena :=
  ⟨#[.pointer "p" "1", .runtimeCall "f" false [0]]⟩

/-- A call on a pointer and a number. -/
def pointerAndNumber : Arena :=
  ⟨#[.pointer "p" "", .literal (.int 1), .runtimeCall "f" false [0, 1]]⟩

theorem quotedPointer_plainlyNamed : quotedPointer.PlainlyNamed := by
  intro e n hn name hname
  rcases e with _ | _ | e
  · obtain rfl := Option.some.inj hn
    obtain rfl := Option.some.inj hname
    simp [IsName, endsWord]
  · obtain rfl := Option.some.inj hn
    obtain rfl := Option.some.inj hname
    simp [IsName, endsWord]
  · cases hn

theorem pointerAndNumber_plainlyNamed : pointerAndNumber.PlainlyNamed := by
  intro e n hn name hname
  rcases e with _ | _ | _ | e
  · obtain rfl := Option.some.inj hn
    obtain rfl := Option.some.inj hname
    simp [IsName, endsWord]
  · obtain rfl := Option.some.inj hn
    cases hname
  · obtain rfl := Option.some.inj hn
    obtain rfl := Option.some.inj hname
    simp [IsName, endsWord]
  · cases hn

theorem buildsTo_quotedPointer : ({} : Arena).BuildsTo quotedPointer :=
  (Relation.ReflTransGen.refl.tail (.node (.pointer "p" "1") rfl (by decide))).tail
    (.node (.runtimeCall "f" false [0]) rfl (by decide))

theorem buildsTo_pointerAndNumber : ({} : Arena).BuildsTo pointerAndNumber :=
  ((Relation.ReflTransGen.refl.tail (.node (.pointer "p" "") rfl (by decide))).tail
    (.node (.literal (.int 1)) rfl (by decide))).tail
      (.node (.runtimeCall "f" false [0, 1]) rfl (by decide))

/-- The number in quotes is told from an operand. -/
theorem exists_outlines_text_ne : ∃ o o', quotedPointer.IsOutline 1 o ∧
    pointerAndNumber.IsOutline 2 o' ∧ o.text (fun _ => none) ≠ o'.text (fun _ => none) := by
  obtain ⟨o, o', ho, ho', hiff⟩ := exists_outlines_text_eq_iff (e := 1) (f := 2)
    (operandsPrecede_empty.buildsTo buildsTo_quotedPointer).acyclic
    (operandsPrecede_empty.buildsTo buildsTo_pointerAndNumber).acyclic
    quotedPointer_plainlyNamed pointerAndNumber_plainlyNamed (by decide) (by decide)
    (fun _ => none) (fun _ => none)
  refine ⟨o, o', ho, ho', fun htext => ?_⟩
  have hsketch := hiff.mp htext
  obtain ⟨s, ho, -⟩ := ho
  obtain ⟨s', ho', -⟩ := ho'
  obtain ⟨rfl, -⟩ := ho.unique (.full rfl nofun (.cons (.full rfl nofun .nil) .nil))
  obtain ⟨rfl, -⟩ := ho'.unique
    (.full rfl nofun (.cons (.full rfl nofun .nil) (.cons (.full rfl nofun .nil) .nil)))
  simp [Outline.sketch, Outline.sketches] at hsketch

end Arena

end StackIR
