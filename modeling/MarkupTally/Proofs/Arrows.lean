import MarkupTally.Proofs.Preorder
import MarkupTally.Proofs.Verdict

/-! The two ways to write an arrow. A block that holds nothing but one return statement adds nodes
around the returned expression, and neither markup nor a function among them; so both searches see
the expression alone, and the arrow is judged like the one with the expression for its body. -/
namespace MarkupTally.Node

section Search

variable {n c : Node} {e : Bool}

/-- The search for markup that begins at this node finds some. -/
def Reveals (e : Bool) (n : Node) : Prop :=
  ∃ path m, Leads n path m ∧ m.isMarkup = true ∧ (e = true → ∀ p ∈ path, p.isFunction = false)

theorem containsMarkup_iff_reveals {body : Node} (h : n.body? = some body) (e : Bool) :
    n.containsMarkup e = true ↔ body.Reveals e := by
  rw [containsMarkup_iff_leads]
  simp only [h, Option.some.injEq, exists_eq_left']
  rfl

/-- One step of the search: the node itself, or a child that the mode lets it enter. -/
theorem reveals_iff (e : Bool) (n : Node) :
    n.Reveals e ↔ n.isMarkup = true ∨
      ∃ c ∈ n.children, (e = true → c.isFunction = false) ∧ c.Reveals e := by
  constructor
  · rintro ⟨path, m, hpath, hm, hfree⟩
    cases hpath with
    | here => exact .inl hm
    | @down n c m path hc hpath =>
      have hstep : e = true → c.isFunction = false := fun he => hfree he c List.mem_cons_self
      have hrest : e = true → ∀ p ∈ path, p.isFunction = false :=
        fun he p hp => hfree he p (List.mem_cons_of_mem c hp)
      exact .inr ⟨c, hc, hstep, path, m, hpath, hm, hrest⟩
  · rintro (hm | ⟨c, hc, hstep, path, m, hpath, hm, hrest⟩)
    · exact ⟨[], n, .here n, hm, by simp⟩
    · refine ⟨c :: path, m, .down hc hpath, hm, fun he p hp => ?_⟩
      rcases List.mem_cons.mp hp with rfl | hp
      · exact hstep he
      · exact hrest he p hp

end Search

section Outlines

mutual

/-- What is left of a tree when only the kinds of its nodes are kept, and which are named: the same
piece of a source has the same outline wherever it stands, and in whatever role. -/
def outline : Node → Node
  | mk info cs =>
    mk { id := 0, kind := info.kind, start := 0, stop := 0, row := 0, column := 0,
         named := info.named }
      (outlineRow cs)

def outlineRow : List Node → List Node
  | [] => []
  | c :: cs => outline c :: outlineRow cs

end

theorem outlineRow_eq_map (cs : List Node) : outlineRow cs = cs.map outline := by
  induction cs with
  | nil => rw [outlineRow, List.map_nil]
  | cons c cs ih => rw [outlineRow, ih, List.map_cons]

@[simp] theorem children_outline (n : Node) : n.outline.children = n.children.map outline := by
  cases n
  rw [outline, children, children, outlineRow_eq_map]

@[simp] theorem kind_outline (n : Node) : n.outline.kind = n.kind := by
  cases n
  rw [outline]
  rfl

@[simp] theorem named_outline (n : Node) : n.outline.info.named = n.info.named := by
  cases n
  rw [outline]
  rfl

@[simp] theorem isMarkup_outline (n : Node) : n.outline.isMarkup = n.isMarkup := by
  rw [Bool.eq_iff_iff, isMarkup_iff, isMarkup_iff, kind_outline]

@[simp] theorem isFunction_outline (n : Node) : n.outline.isFunction = n.isFunction := by
  rw [isFunction, isFunction, kind_outline, named_outline]

theorem reveals_outline (e : Bool) (s : Site) : s.node.outline.Reveals e ↔ s.node.Reveals e := by
  induction s using Site.below_induction with
  | h s ih =>
    have hbelow : ∀ c ∈ s.node.children, c.outline.Reveals e ↔ c.Reveals e := by
      intro c hc
      obtain ⟨d, hd, rfl⟩ := Site.exists_child hc
      exact ih d hd
    rw [reveals_iff, reveals_iff e s.node, isMarkup_outline, children_outline]
    simp only [List.mem_map, exists_exists_and_eq_and, isFunction_outline]
    refine or_congr_right (exists_congr fun c => and_congr_right fun hc => ?_)
    rw [hbelow c hc]

/-- The search depends on the outline alone. -/
theorem reveals_congr {n m : Node} (h : n.outline = m.outline) (e : Bool) :
    n.Reveals e ↔ m.Reveals e := by
  have hn := reveals_outline e (Site.root n)
  have hm := reveals_outline e (Site.root m)
  simp only [Site.root] at hn hm
  rw [← hn, ← hm, h]

end Outlines

/-- What may stand beside the content of a block or of a statement: a comment without parts, or a
token that is no markup. -/
structure Filler (n : Node) : Prop where
  leaf : n.children = []
  comment : n.info.named = true → n.kind = "comment"
  token : n.info.named = false → n.isMarkup = false

/-- The node has `inner` for a child, and only fillers beside it. -/
def Holds (n inner : Node) : Prop :=
  ∃ before after, n.children = before ++ inner :: after ∧ ∀ c ∈ before ++ after, c.Filler

section Wrappers

variable {n inner c : Node}

theorem Filler.isMarkup_eq (h : c.Filler) : c.isMarkup = false := by
  cases hnamed : c.info.named with
  | false => exact h.token hnamed
  | true => simp [← Bool.not_eq_true, isMarkup_iff, h.comment hnamed]

theorem Filler.not_reveals (h : c.Filler) (e : Bool) : ¬c.Reveals e := by
  rw [reveals_iff, h.isMarkup_eq, h.leaf]
  simp

theorem filter_fillers {cs : List Node} (h : ∀ c ∈ cs, c.Filler) :
    cs.filter (fun c => c.kind != "comment" && c.info.named) = [] := by
  rw [List.filter_eq_nil_iff]
  intro c hc
  cases hnamed : c.info.named with
  | false => simp
  | true => simp [(h c hc).comment hnamed]

/-- Fillers are no statements. -/
theorem Holds.statements_eq (h : n.Holds inner) (hnamed : inner.info.named = true)
    (hkind : inner.kind ≠ "comment") : n.statements = [inner] := by
  obtain ⟨before, after, hchildren, hfillers⟩ := h
  have hbefore := filter_fillers fun c hc => hfillers c (List.mem_append_left after hc)
  have hafter := filter_fillers fun c hc => hfillers c (List.mem_append_right before hc)
  rw [statements, namedChildren, List.filter_filter, hchildren, List.filter_append, hbefore,
    List.nil_append, List.filter_cons, hafter]
  simp [hnamed, hkind]

theorem Holds.returned?_eq (h : n.Holds inner) (hnamed : inner.info.named = true)
    (hkind : inner.kind ≠ "comment") : n.returned? = some inner := by
  have hhead : n.returned? = n.statements.head? := by
    rw [returned?, statements, List.head?_filter]
  rw [hhead, h.statements_eq hnamed hkind]
  rfl

/-- A wrapper that is no markup shows what it wraps, if the mode lets the search enter that. -/
theorem Holds.reveals_iff (h : n.Holds inner) (hn : n.isMarkup = false) (e : Bool) :
    n.Reveals e ↔ (e = true → inner.isFunction = false) ∧ inner.Reveals e := by
  obtain ⟨before, after, hchildren, hfillers⟩ := h
  have hinner : inner ∈ n.children := by simp [hchildren]
  rw [Node.reveals_iff, hn]
  constructor
  · rintro (hm | ⟨c, hc, hstep, hreveals⟩)
    · cases hm
    · have hcases : c = inner ∨ c ∈ before ++ after := by
        rw [hchildren, List.mem_append, List.mem_cons] at hc
        rw [List.mem_append]
        tauto
      rcases hcases with rfl | hfiller
      · exact ⟨hstep, hreveals⟩
      · exact absurd hreveals ((hfillers c hfiller).not_reveals e)
  · rintro ⟨hstep, hreveals⟩
    exact .inr ⟨inner, hinner, hstep, hreveals⟩

end Wrappers

/-- What an arrow can have for its body and a return statement can return. -/
structure IsExpression (n : Node) : Prop where
  named : n.info.named = true
  notBlock : n.kind ≠ "statement_block"
  notComment : n.kind ≠ "comment"

/-- The arrow has the expression for its body. -/
structure ExpressionArrow (arrow expr : Node) : Prop where
  kind : arrow.kind = "arrow_function"
  body : arrow.body? = some expr

/-- The arrow has a block for its body, in which the only statement returns the expression. -/
structure ReturningArrow (arrow block ret expr : Node) : Prop where
  kind : arrow.kind = "arrow_function"
  body : arrow.body? = some block
  statement : block.Holds ret
  returned : ret.Holds expr
  blockKind : block.kind = "statement_block"
  returnKind : ret.kind = "return_statement"
  returnNamed : ret.info.named = true

section Arrows

variable {arrow block ret expr : Node}

theorem ExpressionArrow.returnsMarkup_eq (h : arrow.ExpressionArrow expr)
    (hexpr : expr.IsExpression) : arrow.returnsMarkup = expr.isMarkup := by
  have hkind : arrow.functionKind = .arrowExpression := by
    simp [functionKind, h.kind, h.body, hexpr.notBlock]
  simp [returnsMarkup, h.body, hkind]

theorem ReturningArrow.returnsMarkup_eq (h : arrow.ReturningArrow block ret expr)
    (hexpr : expr.IsExpression) : arrow.returnsMarkup = expr.isMarkup := by
  have hkind : arrow.functionKind = .arrowBlock := by
    simp [functionKind, h.kind, h.body, h.blockKind]
  have hstatements : block.statements = [ret] :=
    h.statement.statements_eq h.returnNamed (by simp [h.returnKind])
  have hreturned : ret.returned? = some expr :=
    h.returned.returned?_eq hexpr.named hexpr.notComment
  have hreturn : ret.isReturn = true := by simp [isReturn, h.returnKind]
  simp [returnsMarkup, bodyStatements, h.body, hkind, hstatements, hreturn, hreturned]

/-- The block and the statement are passed; only the expression can turn the search away. -/
theorem ReturningArrow.containsMarkup_iff (h : arrow.ReturningArrow block ret expr) (e : Bool) :
    arrow.containsMarkup e = true ↔
      (e = true → expr.isFunction = false) ∧ expr.Reveals e := by
  have hblock : block.isMarkup = false := by simp [← Bool.not_eq_true, isMarkup_iff, h.blockKind]
  have hret : ret.isMarkup = false := by simp [← Bool.not_eq_true, isMarkup_iff, h.returnKind]
  have hpass : ret.isFunction = false := isFunction_of_isReturn (by simp [isReturn, h.returnKind])
  rw [containsMarkup_iff_reveals h.body, h.statement.reveals_iff hblock,
    h.returned.reveals_iff hret]
  simp [hpass]

end Arrows

/-- An arrow with an expression for its body, and one with a block that only returns the same
expression, both return markup directly or neither does, and get the same verdict; in the stricter
mode too, unless the expression is a function, when the arrow with the block is plain. -/
theorem arrow_forms_judged_alike {arrow arrow' block ret expr expr' : Node}
    (hexpr : expr.IsExpression) (hsame : expr'.outline = expr.outline)
    (h : arrow.ExpressionArrow expr) (h' : arrow'.ReturningArrow block ret expr') :
    arrow'.returnsMarkup = arrow.returnsMarkup ∧
    arrow'.classify false = arrow.classify false ∧
    (expr.isFunction = false → arrow'.classify true = arrow.classify true) ∧
    (expr.isFunction = true → arrow'.classify true = .plain) := by
  have hkind : expr'.kind = expr.kind := by rw [← kind_outline, hsame, kind_outline]
  have hnamed : expr'.info.named = expr.info.named := by
    rw [← named_outline, hsame, named_outline]
  have hmarkup : expr'.isMarkup = expr.isMarkup := by
    rw [← isMarkup_outline, hsame, isMarkup_outline]
  have hfunction : expr'.isFunction = expr.isFunction := by
    rw [← isFunction_outline, hsame, isFunction_outline]
  have hexpr' : expr'.IsExpression :=
    ⟨hnamed ▸ hexpr.named, hkind ▸ hexpr.notBlock, hkind ▸ hexpr.notComment⟩
  have hcontains (e : Bool) : arrow'.containsMarkup e = true ↔
      (e = true → expr.isFunction = false) ∧ arrow.containsMarkup e = true := by
    rw [h'.containsMarkup_iff, containsMarkup_iff_reveals h.body, reveals_congr hsame, hfunction]
  have hequal {e : Bool} (hpass : e = true → expr.isFunction = false) :
      arrow'.classify e = arrow.classify e := by
    have hboth : arrow'.containsMarkup e = arrow.containsMarkup e := by
      rw [Bool.eq_iff_iff, hcontains e]
      exact and_iff_right hpass
    rw [classify_eq_ite, classify_eq_ite, hboth]
  refine ⟨?_, hequal (by simp), fun hfree => hequal fun _ => hfree, fun hf => ?_⟩
  · rw [h'.returnsMarkup_eq hexpr', h.returnsMarkup_eq hexpr, hmarkup]
  · have hnone : arrow'.containsMarkup true = false := by
      rw [← Bool.not_eq_true, hcontains true, hf]
      simp
    rw [classify_eq_ite, hnone]
    rfl

/-! Two arrows to markup in parentheses: it is not returned directly, and yet it is found. -/
namespace Parenthesized

open Analysis.Inner (node)

def token (kind : String) : Node :=
  .mk { id := 0, kind, start := 0, stop := 0, row := 0, column := 0, named := false } []

def comment : Node := node "comment" none 2 []

def expression (role : Option String) : Node :=
  node "parenthesized_expression" role 2
    [token "(", node "jsx_self_closing_element" none 2 [], token ")"]

def arrow : Node := node "arrow_function" none 2 [token "=>", expression (some "body")]

def statement : Node :=
  node "return_statement" none 2 [token "return", comment, expression none, token ";"]

def block : Node :=
  node "statement_block" (some "body") 2 [token "\x7b", comment, statement, token "\x7d"]

def blockArrow : Node := node "arrow_function" none 2 [token "=>", block]

theorem filler_comment : comment.Filler :=
  ⟨rfl, fun _ => rfl, fun hnamed => (Bool.false_ne_true hnamed.symm).elim⟩

theorem filler_token {kind : String} (h : (token kind).isMarkup = false) : (token kind).Filler :=
  ⟨rfl, fun hnamed => (Bool.false_ne_true hnamed).elim, fun _ => h⟩

theorem holds_statement : statement.Holds (expression none) := by
  refine ⟨[token "return", comment], [token ";"], rfl, ?_⟩
  simp only [List.cons_append, List.nil_append, List.forall_mem_cons]
  exact ⟨filler_token (by decide), filler_comment, filler_token (by decide), by simp⟩

theorem holds_block : block.Holds statement := by
  refine ⟨[token "\x7b", comment], [token "\x7d"], rfl, ?_⟩
  simp only [List.cons_append, List.nil_append, List.forall_mem_cons]
  exact ⟨filler_token (by decide), filler_comment, filler_token (by decide), by simp⟩

theorem returningArrow : blockArrow.ReturningArrow block statement (expression none) :=
  ⟨rfl, rfl, holds_block, holds_statement, rfl, rfl, rfl⟩

end Parenthesized

/-- Markup in parentheses is found in both forms, and returned directly by neither. -/
theorem arrow_forms_judged_alike_parenthesized :
    Parenthesized.blockArrow.ReturningArrow Parenthesized.block Parenthesized.statement
        (Parenthesized.expression none) ∧
      Parenthesized.blockArrow.returnsMarkup = false ∧
      Parenthesized.blockArrow.classify false = Parenthesized.arrow.classify false ∧
      Parenthesized.blockArrow.classify true = Parenthesized.arrow.classify true := by
  have hexpr : (Parenthesized.expression (some "body")).IsExpression :=
    ⟨rfl, by decide, by decide⟩
  have harrow : Parenthesized.arrow.ExpressionArrow (Parenthesized.expression (some "body")) :=
    ⟨rfl, rfl⟩
  have hsame : (Parenthesized.expression none).outline =
      (Parenthesized.expression (some "body")).outline := by rfl
  have h := arrow_forms_judged_alike hexpr hsame harrow Parenthesized.returningArrow
  exact ⟨Parenthesized.returningArrow, h.1.trans (by decide), h.2.1, h.2.2.1 (by decide)⟩

end MarkupTally.Node
