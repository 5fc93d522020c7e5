import MarkupTally.Proofs.Presence
import MarkupTally.Proofs.Removal

/-! Comments. Whatever is asked of a function is asked of its children by their roles and kinds, and
no loose comment has a role or counts as a statement; so a tree without some of its loose comments
has the same functions, named by the same nodes and judged alike. -/
namespace MarkupTally

namespace Node

variable {n n' : Node}

theorem isMarkup_congr (h : n'.info = n.info) : n'.isMarkup = n.isMarkup := by
  rw [Bool.eq_iff_iff, isMarkup_iff, isMarkup_iff, kind, kind, h]

theorem text_congr (h : n'.info = n.info) (bytes : List UInt8) : n'.text bytes = n.text bytes := by
  rw [text, text, h]

theorem isFunction_congr (h : n'.info = n.info) : n'.isFunction = n.isFunction := by
  rw [isFunction, isFunction, kind, kind, h]

theorem LooseComment.isMarkup (h : n.LooseComment) : n.isMarkup = false := by
  simp [← Bool.not_eq_true, isMarkup_iff, h.1]

theorem LooseComment.isFunction (h : n.LooseComment) : n.isFunction = false := by
  simp [Node.isFunction, h.1, functionKinds]

/-- A statement of a block, or what a return statement can return. -/
def Info.isContent (i : Info) : Bool := i.named && i.kind != "comment"

theorem LooseComment.isContent (h : n.LooseComment) : n.info.isContent = false := by
  have hkind : n.info.kind = "comment" := h.1
  simp [Info.isContent, hkind]

end Node

namespace Site

open Node

variable {gone : Removal} {s s' c c' : Site}

theorem child?_eq (s : Site) (role : String) :
    s.node.child? role =
      (s.children.find? fun c => c.node.info.field == some role).map Site.node := by
  rw [Node.child?, ← map_node_children, List.find?_map]
  rfl

theorem statements_eq (s : Site) :
    s.node.statements = (s.children.filter fun c => c.node.info.isContent).map Site.node := by
  have hcontent : s.node.statements = s.node.children.filter fun c => c.info.isContent := by
    rw [statements, namedChildren, List.filter_filter]
    exact List.filter_congr fun c _ => Bool.and_comm _ _
  rw [hcontent, ← map_node_children, List.filter_map]
  rfl

theorem returned?_eq (s : Site) :
    s.node.returned? = (s.children.find? fun c => c.node.info.isContent).map Site.node := by
  have hhead : s.node.returned? = s.node.statements.head? := by
    rw [returned?, statements, List.head?_filter]
  rw [hhead, statements_eq, List.head?_map, List.head?_filter]

theorem Trims.child? (h : Trims gone s s') (role : String) :
    Option.Rel (Stays gone s s') (s.children.find? fun c => c.node.info.field == some role)
      (s'.children.find? fun c => c.node.info.field == some role) := by
  apply h.find? (q := fun i => i.field == some role)
  intro n hn
  simp [hn.2.2]

/-- The child in a role stays in that role, or there is none before and after. -/
theorem Trims.child?_node (h : Trims gone s s') (role : String) :
    Option.Rel (fun n n' => ∃ c c', Stays gone s s' c c' ∧ c.node = n ∧ c'.node = n')
      (s.node.child? role) (s'.node.child? role) := by
  rw [child?_eq, child?_eq]
  rcases rel_cases (h.child? role) with ⟨hc, hc'⟩ | ⟨c, c', hc, hc', hcc⟩
  · rw [hc, hc']
    exact .none
  · rw [hc, hc']
    exact .some ⟨c, c', hcc, rfl, rfl⟩

theorem Trims.body_cases (h : Trims gone s s') :
    (s.node.body? = none ∧ s'.node.body? = none) ∨
      ∃ c c', Stays gone s s' c c' ∧ s.node.body? = some c.node ∧ s'.node.body? = some c'.node := by
  rcases rel_cases (h.child?_node "body") with ⟨hb, hb'⟩ | ⟨_, _, hb, hb', hbody⟩
  · exact .inl ⟨hb, hb'⟩
  · obtain ⟨c, c', hcc, rfl, rfl⟩ := hbody
    exact .inr ⟨c, c', hcc, hb, hb'⟩

theorem Trims.functionKind_eq (h : Trims gone s s') :
    s'.node.functionKind = s.node.functionKind := by
  have hkind : s'.node.kind = s.node.kind := by rw [kind, kind, h.info]
  have hbody : (s'.node.body?.any fun b => b.kind == "statement_block") =
      s.node.body?.any fun b => b.kind == "statement_block" := by
    rcases h.body_cases with ⟨hb, hb'⟩ | ⟨c, c', hcc, hb, hb'⟩
    · rw [hb, hb']
    · have hkind : c'.node.kind = c.node.kind := by rw [kind, kind, hcc.trims.info]
      rw [hb, hb', Option.any_some, Option.any_some, hkind]
  unfold functionKind
  rw [hkind, hbody]

theorem Trims.returned_eq (h : Trims gone s s') :
    (s'.node.isReturn && s'.node.returned?.any isMarkup) =
      (s.node.isReturn && s.node.returned?.any isMarkup) := by
  have hreturn : s'.node.isReturn = s.node.isReturn := by
    rw [isReturn, isReturn, kind, kind, h.info]
  have hfirst := h.find? fun n hn => LooseComment.isContent hn
  have hreturned : s'.node.returned?.any isMarkup = s.node.returned?.any isMarkup := by
    rw [returned?_eq, returned?_eq]
    rcases rel_cases hfirst with ⟨hc, hc'⟩ | ⟨c, c', hc, hc', hcc⟩
    · rw [hc, hc']
    · rw [hc, hc']
      exact isMarkup_congr hcc.trims.info
  rw [hreturn, hreturned]

theorem any_eq_of_forall₂ {R : Site → Site → Prop} {p : Site → Bool} {cs cs' : List Site}
    (h : List.Forall₂ R cs cs') (hp : ∀ c c', R c c' → p c' = p c) : cs'.any p = cs.any p := by
  induction h with
  | nil => rfl
  | cons hcc _ ih => rw [List.any_cons, List.any_cons, hp _ _ hcc, ih]

theorem Trims.returnsMarkup_eq (h : Trims gone s s') :
    s'.node.returnsMarkup = s.node.returnsMarkup := by
  unfold returnsMarkup bodyStatements
  rw [h.functionKind_eq]
  rcases h.body_cases with ⟨hb, hb'⟩ | ⟨c, c', hcc, hb, hb'⟩
  · rw [hb, hb']
  · rw [hb, hb']
    dsimp only
    split
    · exact isMarkup_congr hcc.trims.info
    · rw [statements_eq c, statements_eq c', List.any_map, List.any_map]
      have hstatements := hcc.trims.filter fun n hn => LooseComment.isContent hn
      exact any_eq_of_forall₂ hstatements fun d d' hdd => hdd.trims.returned_eq

/-- A path through what stays is a path of the whole tree. -/
theorem Trims.leads_before (h : Trims gone s s') {path' : List Node} {m' : Node}
    (hpath : Leads s'.node path' m') :
    ∃ path m, Leads s.node path m ∧ m'.info = m.info ∧
      path'.map Node.info = path.map Node.info := by
  generalize hn : s'.node = n at hpath
  induction hpath generalizing gone s s' with
  | here n =>
    subst hn
    exact ⟨[], s.node, .here _, h.info, rfl⟩
  | @down n c' m' path' hc' _ ih =>
    subst hn
    obtain ⟨d', hd', rfl⟩ := exists_child hc'
    obtain ⟨d, hdd⟩ := h.exists_before hd'
    obtain ⟨path, m, hpath, hm, hinfos⟩ := ih hdd.trims rfl
    have hinfos : (d'.node :: path').map Node.info = (d.node :: path).map Node.info := by
      rw [List.map_cons, List.map_cons, hdd.trims.info, hinfos]
    exact ⟨d.node :: path, m, .down (node_mem_children hdd.mem) hpath, hm, hinfos⟩

/-- A path to markup does not lead through a loose comment, so all of it stays. -/
theorem Trims.leads_after (h : Trims gone s s') {path : List Node} {m : Node}
    (hpath : Leads s.node path m) (hm : m.isMarkup = true) :
    ∃ path' m', Leads s'.node path' m' ∧ m'.info = m.info ∧
      path'.map Node.info = path.map Node.info := by
  generalize hn : s.node = n at hpath
  induction hpath generalizing gone s s' with
  | here n =>
    subst hn
    exact ⟨[], s'.node, .here _, h.info, rfl⟩
  | @down n c m path hc hpath ih =>
    subst hn
    obtain ⟨d, hd, rfl⟩ := exists_child hc
    have hstays : ¬d.node.LooseComment := by
      intro hloose
      cases hpath with
      | here => rw [hloose.isMarkup] at hm; cases hm
      | down hc _ => rw [hloose.2.1] at hc; cases hc
    obtain ⟨d', hdd⟩ := h.exists_after hd hstays
    obtain ⟨path', m', hpath', hm', hinfos⟩ := ih hdd.trims hm rfl
    have hinfos : (d'.node :: path').map Node.info = (d.node :: path).map Node.info := by
      rw [List.map_cons, List.map_cons, hdd.trims.info, hinfos]
    exact ⟨d'.node :: path', m', .down (node_mem_children hdd.mem') hpath', hm', hinfos⟩

theorem free_of_infos {path path' : List Node} (h : path'.map Node.info = path.map Node.info)
    (hfree : ∀ p ∈ path, p.isFunction = false) : ∀ p ∈ path', p.isFunction = false := by
  intro p hp
  have hinfo : p.info ∈ path.map Node.info := h ▸ List.mem_map_of_mem hp
  obtain ⟨q, hq, hqp⟩ := List.mem_map.mp hinfo
  rw [isFunction_congr hqp.symm, hfree q hq]

theorem Trims.containsMarkup_eq (h : Trims gone s s') (e : Bool) :
    s'.node.containsMarkup e = s.node.containsMarkup e := by
  rw [Bool.eq_iff_iff, containsMarkup_iff_leads, containsMarkup_iff_leads]
  rcases h.body_cases with ⟨hb, hb'⟩ | ⟨c, c', hcc, hb, hb'⟩
  · simp [hb, hb']
  · simp only [hb, hb', Option.some.injEq, exists_eq_left']
    constructor
    · rintro ⟨path', m', hpath', hm', hfree⟩
      obtain ⟨path, m, hpath, hinfo, hinfos⟩ := hcc.trims.leads_before hpath'
      rw [isMarkup_congr hinfo] at hm'
      exact ⟨path, m, hpath, hm', fun he => free_of_infos hinfos.symm (hfree he)⟩
    · rintro ⟨path, m, hpath, hm, hfree⟩
      obtain ⟨path', m', hpath', hinfo, hinfos⟩ := hcc.trims.leads_after hpath hm
      rw [← isMarkup_congr hinfo] at hm
      exact ⟨path', m', hpath', hm, fun he => free_of_infos hinfos (hfree he)⟩

theorem Trims.judgedAlike (h : Trims gone s s') : s.JudgedAlike s' where
  kind := h.functionKind_eq
  contains := h.containsMarkup_eq
  returns := h.returnsMarkup_eq
  verdict e := by rw [classify, classify, h.containsMarkup_eq, h.returnsMarkup_eq]

theorem children_eq_nil_of_loose (h : c.node.LooseComment) : c.children = [] := by
  rw [children, h.2.1]
  rfl

theorem flatMap_filter_eq {keep : Site → Bool} {F : Site → List (Address × Site)} {cs : List Site}
    (h : ∀ c ∈ cs, keep c = false → F c = []) : (cs.filter keep).flatMap F = cs.flatMap F := by
  induction cs with
  | nil => rfl
  | cons c cs ih =>
    rw [List.forall_mem_cons] at h
    rw [List.filter_cons, List.flatMap_cons, ← ih h.2]
    cases hc : keep c with
    | true => rfl
    | false => simp [h.1 hc]

/-- The functions that stay are enumerated in their order, each where it has moved to. -/
theorem Trims.functionPlaces (h : Trims gone s s') (top : Bool) :
    List.Forall₂ (fun p p' => p'.1 = gone.moved p.1 ∧ Trims (gone.under p.1) p.2 p'.2)
      (s.functionPlaces top) (s'.functionPlaces top) := by
  induction s using below_induction generalizing gone s' with
  | h s ih =>
    rw [functionPlaces_eq top s, functionPlaces_eq top s', isFunction_congr h.info]
    apply List.rel_append
    · split
      · exact .cons ⟨rfl, h⟩ .nil
      · exact .nil
    · split
      · exact .nil
      · have hloose : ∀ c ∈ s.children, (!gone [c.place]) = false →
            (c.functionPlaces top).map (fun p => (c.place :: p.1, p.2)) = [] := by
          intro c hc hgone
          have hc := h.comments.loose hc (by simpa using hgone)
          simp [functionPlaces_eq top c, hc.isFunction, children_eq_nil_of_loose hc]
        rw [← flatMap_filter_eq hloose]
        refine List.rel_flatMap h.children fun c c' hcc => ?_
        rw [List.forall₂_map_left_iff, List.forall₂_map_right_iff]
        refine (ih c hcc.mem hcc.trims).imp ?_
        rintro p p' ⟨haddress, htrims⟩
        refine ⟨?_, htrims⟩
        show c'.place :: p'.1 = gone.rank c.place :: (gone.below c.place).moved p.1
        rw [hcc.place, haddress]

/-- A node that is no loose comment stays, and stands where its address has moved to. -/
theorem Trims.at? (h : Trims gone s s') {a : Address} {t : Site} (ht : s.at? a = some t)
    (hn : ¬t.node.LooseComment) :
    ∃ t', s'.at? (gone.moved a) = some t' ∧ Trims (gone.under a) t t' := by
  induction a generalizing gone s s' with
  | nil =>
    cases ht
    exact ⟨s', rfl, h⟩
  | cons i a ih =>
    obtain ⟨c, hc, hbelow⟩ := at?_cons_eq_some_iff.mp ht
    obtain ⟨hmem, rfl⟩ := getElem?_children_eq_some_iff.mp hc
    have hstays : ¬c.node.LooseComment := by
      intro hloose
      cases a with
      | nil =>
        cases hbelow
        exact hn hloose
      | cons j a => simp [Site.at?, children_eq_nil_of_loose hloose] at hbelow
    obtain ⟨c', hcc⟩ := h.exists_after hmem hstays
    obtain ⟨t', ht', htrims⟩ := ih hcc.trims hbelow
    refine ⟨t', ?_, htrims⟩
    show s'.at? (gone.rank c.place :: (gone.below c.place).moved a) = some t'
    rw [← hcc.place, at?_child hcc.mem', ht']

theorem parent_of_mem_children (hc : c ∈ s.children) : c.parent = some s.node := by
  obtain ⟨i, n, -, rfl⟩ := List.mem_mapIdx.mp hc
  rfl

theorem findIdx?_children (s : Site) (q : Node → Bool) :
    s.node.children.findIdx? q = (s.children.find? fun c => q c.node).map Site.place := by
  rw [List.findIdx?_eq_fst_find?_zipIdx, children_eq_map_zipIdx, List.find?_map, Option.map_map]
  rfl

/-- The parent gives its name to the first child in the role of the value. -/
theorem nameFromParent?_eq (hc : c ∈ s.children) :
    c.nameFromParent? = (namingRoles? s.node.kind).bind fun roles =>
      (s.children.find? fun d => d.node.info.field == some roles.2).bind fun d =>
        if d.place = c.place then s.node.child? roles.1 else none := by
  simp only [nameFromParent?, parent_of_mem_children hc, findIdx?_children, Option.bind_eq_bind,
    Option.bind_some, Option.bind_map]
  rfl

/-- The node stands at an address of the tree, and the other one where that address has moved to. -/
def Corresponds (gone : Removal) (root : Node) (a : Address) (n n' : Node) : Prop :=
  ∃ t t', (Site.root root).at? a = some t ∧
    (Site.root (root.without gone)).at? (gone.moved a) = some t' ∧ t.node = n ∧ t'.node = n'

/-- The second place holds what stays of the function at the first one: it is where the first has
moved to, it is judged alike, and it has its name from the corresponding node, a child or a sibling
of it. -/
structure Twins (gone : Removal) (root : Node) (p p' : Address × Site) : Prop where
  address : p'.1 = gone.moved p.1
  before : (Site.root root).at? p.1 = some p.2
  after : (Site.root (root.without gone)).at? p'.1 = some p'.2
  judged : p.2.JudgedAlike p'.2
  named : Option.Rel
    (fun n n' => ∃ a, (a.dropLast = p.1 ∨ a.dropLast = p.1.dropLast) ∧
      Corresponds gone root a n n') p.2.nameNode? p'.2.nameNode?
  name (bytes : List UInt8) : p'.2.name? bytes = p.2.name? bytes

/-- The name that a parent gives to its value comes from a child of it that stays. -/
theorem Stays.nameFromParent (h : Trims gone s s') (hcc : Stays gone s s' c c') :
    Option.Rel (fun n n' => ∃ d d', Stays gone s s' d d' ∧ d.node = n ∧ d'.node = n')
      c.nameFromParent? c'.nameFromParent? := by
  have hkind : s'.node.kind = s.node.kind := by rw [kind, kind, h.info]
  rw [nameFromParent?_eq hcc.mem, nameFromParent?_eq hcc.mem', hkind]
  cases namingRoles? s.node.kind with
  | none => exact .none
  | some roles =>
    dsimp only [Option.bind_some]
    rcases rel_cases (h.child? roles.2) with ⟨hd, hd'⟩ | ⟨d, d', hd, hd', hdd⟩
    · rw [hd, hd']
      exact .none
    · have hplace : d'.place = c'.place ↔ d.place = c.place := by
        rw [hdd.place, hcc.place, gone.rank_inj hdd.kept hcc.kept]
      simp only [hd, hd', Option.bind_some, hplace]
      split
      · exact h.child?_node roles.1
      · exact .none

section Whole

variable {root : Node} {a : Address} {t t' : Site}

theorem Stays.at?_before (ht : (Site.root root).at? a = some t) (hcc : Stays gone t t' c c') :
    (Site.root root).at? (a ++ [c.place]) = some c := by
  rw [at?_append, ht]
  exact at?_child hcc.mem []

theorem Stays.at?_after (ht' : (Site.root (root.without gone)).at? (gone.moved a) = some t')
    (hcc : Stays (gone.under a) t t' c c') :
    (Site.root (root.without gone)).at? (gone.moved (a ++ [c.place])) = some c' := by
  have hmoved : gone.moved (a ++ [c.place]) = gone.moved a ++ [c'.place] := by
    rw [Removal.moved_append, hcc.place]
    rfl
  rw [hmoved, at?_append, ht']
  exact at?_child hcc.mem' []

/-- A function of a tree is the root, or a child of a node that stays. -/
theorem root_or_stays (h : (Site.root root).OnlyComments gone)
    (ht : (Site.root root).at? a = some t) (hf : t.node.isFunction = true)
    (ht' : (Site.root (root.without gone)).at? (gone.moved a) = some t') :
    (t = Site.root root ∧ t' = Site.root (root.without gone)) ∨
    ∃ p p', (Site.root root).at? a.dropLast = some p ∧
      (Site.root (root.without gone)).at? (gone.moved a.dropLast) = some p' ∧
      Trims (gone.under a.dropLast) p p' ∧ Stays (gone.under a.dropLast) p p' t t' := by
  have htrims : Trims gone (Site.root root) (Site.root (root.without gone)) := ⟨rfl, h⟩
  rcases List.eq_nil_or_concat a with rfl | ⟨b, j, rfl⟩
  · exact .inl ⟨(Option.some.inj ht).symm, (Option.some.inj ht').symm⟩
  · right
    rw [List.concat_eq_append] at ht ht' ⊢
    rw [List.dropLast_concat]
    have hparent := ht
    rw [at?_append] at hparent
    obtain ⟨p, hp, hj⟩ := Option.bind_eq_some_iff.mp hparent
    obtain ⟨c, hc, hct⟩ := at?_cons_eq_some_iff.mp hj
    have hct : c = t := Option.some.inj hct
    subst hct
    obtain ⟨hmem, rfl⟩ := getElem?_children_eq_some_iff.mp hc
    have hnot : ¬p.node.LooseComment := by
      intro hloose
      rw [children_eq_nil_of_loose hloose] at hmem
      cases hmem
    obtain ⟨p', hp', hpp⟩ := htrims.at? hp hnot
    have hstays : ¬c.node.LooseComment := by
      intro hloose
      rw [hloose.isFunction] at hf
      cases hf
    obtain ⟨u, hcu⟩ := hpp.exists_after hmem hstays
    have hu : t' = u := Option.some.inj (ht'.symm.trans (hcu.at?_after hp'))
    subst hu
    exact ⟨p, p', hp, hp', hpp, hcu⟩

/-- A function has its name from a node that stays, a child or a sibling of it. -/
theorem nameNode?_rel (h : (Site.root root).OnlyComments gone)
    (ht : (Site.root root).at? a = some t) (hf : t.node.isFunction = true)
    (ht' : (Site.root (root.without gone)).at? (gone.moved a) = some t')
    (htrims : Trims (gone.under a) t t') :
    Option.Rel
      (fun n n' => n'.info = n.info ∧ ∃ b, (b.dropLast = a ∨ b.dropLast = a.dropLast) ∧
        Corresponds gone root b n n') t.nameNode? t'.nameNode? := by
  unfold nameNode?
  rcases rel_cases (htrims.child?_node "name") with ⟨hown, hown'⟩ | ⟨_, _, hown, hown', hname⟩
  · rw [hown, hown']
    rcases root_or_stays h ht hf ht' with ⟨rfl, rfl⟩ | ⟨p, p', hp, hp', hpp, htt⟩
    · exact .none
    · show Option.Rel _ t.nameFromParent? t'.nameFromParent?
      rcases rel_cases (htt.nameFromParent hpp) with ⟨hn, hn'⟩ | ⟨_, _, hn, hn', hname⟩
      · rw [hn, hn']
        exact .none
      · obtain ⟨c, c', hcc, rfl, rfl⟩ := hname
        rw [hn, hn']
        refine .some ⟨hcc.trims.info, a.dropLast ++ [c.place], .inr List.dropLast_concat, c, c',
          ?_, ?_, rfl, rfl⟩
        · exact hcc.at?_before hp
        · exact hcc.at?_after hp'
  · obtain ⟨c, c', hcc, rfl, rfl⟩ := hname
    rw [hown, hown']
    refine .some ⟨hcc.trims.info, a ++ [c.place], .inl List.dropLast_concat, c, c',
      ?_, ?_, rfl, rfl⟩
    · exact hcc.at?_before ht
    · exact hcc.at?_after ht'

theorem twins_of_trims (h : (Site.root root).OnlyComments gone)
    (ht : (Site.root root).at? a = some t) (hf : t.node.isFunction = true)
    (ht' : (Site.root (root.without gone)).at? (gone.moved a) = some t')
    (htrims : Trims (gone.under a) t t') : Twins gone root (a, t) (gone.moved a, t') := by
  have hrel := nameNode?_rel h ht hf ht' htrims
  refine ⟨rfl, ht, ht', htrims.judgedAlike, ?_, ?_⟩
  · rcases rel_cases hrel with ⟨hn, hn'⟩ | ⟨n, n', hn, hn', hname⟩
    · simp only [hn, hn']
      exact .none
    · simp only [hn, hn']
      exact .some hname.2
  · intro bytes
    rcases rel_cases hrel with ⟨hn, hn'⟩ | ⟨n, n', hn, hn', hname⟩
    · simp only [name?, hn, hn']
    · simp only [name?, hn, hn', text_congr hname.1]

end Whole

end Site

/-- A tree without some of its loose comments has the same functions in the same order, at the
places to which they have moved. Each of them is of the same kind, judged alike by every check, and
named by the corresponding node with the same text. -/
theorem Node.functions_without_comments (root : Node) (gone : Removal)
    (h : (Site.root root).OnlyComments gone) (top : Bool) :
    let trimmed := root.without gone
    ((Site.root root).functionPlaces top).map Prod.snd = root.functionSites top ∧
    ((Site.root trimmed).functionPlaces top).map Prod.snd = trimmed.functionSites top ∧
    List.Forall₂ (Site.Twins gone root) ((Site.root root).functionPlaces top)
      ((Site.root trimmed).functionPlaces top) := by
  intro trimmed
  have htrims : Site.Trims gone (Site.root root) (Site.root trimmed) := ⟨rfl, h⟩
  refine ⟨Site.map_snd_functionPlaces top root, Site.map_snd_functionPlaces top trimmed, ?_⟩
  have hplaces := htrims.functionPlaces top
  rw [List.forall₂_iff_zip] at hplaces ⊢
  refine ⟨hplaces.1, fun {p p'} hpp => ?_⟩
  obtain ⟨hp, hp'⟩ := List.of_mem_zip hpp
  obtain ⟨haddress, hsite⟩ := hplaces.2 hpp
  obtain ⟨a, t⟩ := p
  obtain ⟨a', t'⟩ := p'
  dsimp only at haddress hsite
  subst haddress
  obtain ⟨ht, hf, -⟩ := Site.mem_functionPlaces_iff.mp hp
  obtain ⟨ht', -, -⟩ := Site.mem_functionPlaces_iff.mp hp'
  exact Site.twins_of_trims h ht hf ht' hsite

/-! A component with a comment in front of it, in front of its only statement and in front of what
it returns. Its name comes from the declaration around it. -/
namespace Commented

open Analysis.Inner (node)

def comment : Node := node "comment" none 1 []

def component : Node :=
  node "arrow_function" (some "value") 2
    [node "statement_block" (some "body") 2
      [comment, node "return_statement" none 2
        [comment, node "jsx_self_closing_element" none 2 []]]]

def declarator : Node :=
  node "variable_declarator" none 2 [node "identifier" (some "name") 1 [], comment, component]

def gone : Removal := fun a => [[1], [2, 0, 0], [2, 0, 1, 0]].contains a

end Commented

/-- The component moves one place to the left and keeps its name and its verdict. -/
theorem Node.functions_without_comments_component :
    (Site.root Commented.declarator).OnlyComments Commented.gone ∧
      Commented.gone.moved [2] = [1] ∧
      List.Forall₂ (Site.Twins Commented.gone Commented.declarator)
        ((Site.root Commented.declarator).functionPlaces true)
        ((Site.root (Commented.declarator.without Commented.gone)).functionPlaces true) := by
  have hcomments : (Site.root Commented.declarator).OnlyComments Commented.gone := by
    intro a t _ ht hgone
    have hloose : Commented.comment.LooseComment := ⟨rfl, rfl, rfl⟩
    have ha : a = [1] ∨ a = [2, 0, 0] ∨ a = [2, 0, 1, 0] := by
      simpa [Commented.gone] using hgone
    rcases ha with rfl | rfl | rfl <;> cases ht <;> exact hloose
  have h := functions_without_comments Commented.declarator Commented.gone hcomments true
  exact ⟨hcomments, by decide, h.2.2⟩

end MarkupTally
