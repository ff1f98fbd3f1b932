import PatternPages.Html.Node

/-! Trees that render alike. Fragments, texts side by side and empty texts leave no trace in what is rendered, and a normal
form has none of them. -/
namespace PatternPages.Html

namespace Node

mutual

/-- No markup is written already, and names and keys consist of letters and digits. -/
def Clean : Node → Prop
  | .element name attributes children =>
    name.all Char.isAlphanum ∧ (∀ a ∈ attributes, a.key.all Char.isAlphanum) ∧ AllClean children
  | .text _ => True
  | .raw _ => False
  | .fragment nodes => AllClean nodes

def AllClean : List Node → Prop
  | [] => True
  | node :: rest => Clean node ∧ AllClean rest

end

theorem allClean_append {front back : List Node} : AllClean (front ++ back) ↔ AllClean front ∧ AllClean back := by
  induction front with
  | nil => simp [AllClean]
  | cons node front ih => rw [List.cons_append, AllClean, AllClean, ih, and_assoc]

/-! ## Normal forms -/

/-- A text in front of nodes joins the text with which they begin. -/
def consText (content : Text) (nodes : List Node) : List Node :=
  if content = [] then nodes
  else
    match nodes with
    | .text more :: rest => .text (content ++ more) :: rest
    | _ => .text content :: nodes

mutual

/-- The normal form of a tree in front of nodes that are in normal form. -/
def normalize : Node → List Node → List Node
  | .element name attributes children, behind => .element name attributes (normalizeAll children []) :: behind
  | .text content, behind => consText content behind
  | .raw markup, behind => .raw markup :: behind
  | .fragment nodes, behind => normalizeAll nodes behind

def normalizeAll : List Node → List Node → List Node
  | [], behind => behind
  | node :: rest, behind => normalize node (normalizeAll rest behind)

end

def normalForm (node : Node) : List Node := normalize node []

/-- Elements and texts, where no text is empty or stands before another one. -/
inductive Normal : List Node → Prop where
  | nil : Normal []
  | element (name : Text) (attributes : List Attribute) {children rest : List Node} :
    Normal children → Normal rest → Normal (.element name attributes children :: rest)
  | text {content : Text} {rest : List Node} :
    content ≠ [] → (∀ other more, rest ≠ .text other :: more) → Normal rest → Normal (.text content :: rest)

theorem consText_nil (nodes : List Node) : consText [] nodes = nodes := if_pos rfl

theorem consText_text {content : Text} (full : content ≠ []) (more : Text) (rest : List Node) :
    consText content (.text more :: rest) = .text (content ++ more) :: rest := if_neg full

theorem consText_alone {content : Text} {nodes : List Node} (full : content ≠ [])
    (alone : ∀ other more, nodes ≠ .text other :: more) : consText content nodes = .text content :: nodes := by
  rw [consText, if_neg full]
  exact alone

/-- A text that is put before nodes vanishes, joins the first of them or becomes the first. -/
theorem consText_cases (content : Text) (nodes : List Node) :
    content = [] ∨ (content ≠ [] ∧ ∃ more rest, nodes = .text more :: rest) ∨
      (content ≠ [] ∧ ∀ other more, nodes ≠ .text other :: more) := by
  by_cases empty : content = []
  · exact .inl empty
  · by_cases joins : ∃ more rest, nodes = .text more :: rest
    · exact .inr (.inl ⟨empty, joins⟩)
    · exact .inr (.inr ⟨empty, fun other more eq => joins ⟨other, more, eq⟩⟩)

theorem consText_append (front back : Text) (nodes : List Node) :
    consText (front ++ back) nodes = consText front (consText back nodes) := by
  by_cases none : front = []
  · rw [none, consText_nil, List.nil_append]
  · have full : front ++ back ≠ [] := List.append_ne_nil_of_left_ne_nil none back
    rcases consText_cases back nodes with rfl | ⟨more, other, rest, rfl⟩ | ⟨more, alone⟩
    · rw [consText_nil, List.append_nil]
    · rw [consText_text full, consText_text more, consText_text none, List.append_assoc]
    · rw [consText_alone full alone, consText_alone more alone, consText_text none]

theorem renderAll_consText (content : Text) (nodes : List Node) :
    renderAll (consText content nodes) = escape content ++ renderAll nodes := by
  rcases consText_cases content nodes with rfl | ⟨full, more, rest, rfl⟩ | ⟨full, alone⟩
  · rw [consText_nil]
    rfl
  · rw [consText_text full, renderAll, renderAll, render, render, escape_append, List.append_assoc]
  · rw [consText_alone full alone, renderAll, render]

theorem Normal.consText {nodes : List Node} (normal : Normal nodes) (content : Text) : Normal (consText content nodes) := by
  rcases consText_cases content nodes with rfl | ⟨full, more, rest, rfl⟩ | ⟨full, alone⟩
  · rwa [consText_nil]
  · cases normal with
    | text _ alone normal =>
      rw [consText_text full]
      exact .text (List.append_ne_nil_of_left_ne_nil full more) alone normal
  · rw [consText_alone full alone]
    exact .text full alone normal

mutual

theorem renderAll_normalize : ∀ (node : Node) (behind : List Node),
    renderAll (normalize node behind) = render node ++ renderAll behind
  | .element name attributes children, behind => by
    have inner := renderAll_normalizeAll children []
    rw [renderAll, List.append_nil] at inner
    rw [normalize, renderAll, render, render, inner]
  | .text content, behind => by rw [normalize, render, renderAll_consText]
  | .raw markup, behind => by rw [normalize, renderAll]
  | .fragment nodes, behind => by rw [normalize, render, renderAll_normalizeAll nodes behind]

theorem renderAll_normalizeAll : ∀ nodes behind : List Node,
    renderAll (normalizeAll nodes behind) = renderAll nodes ++ renderAll behind
  | [], behind => rfl
  | node :: rest, behind => by
    rw [normalizeAll, renderAll_normalize node, renderAll_normalizeAll rest behind, renderAll, List.append_assoc]

end

/-- Nothing that is rendered is lost or moved in a normal form. -/
theorem renderAll_normalForm (node : Node) : renderAll node.normalForm = node.render := by
  rw [normalForm, renderAll_normalize, renderAll, List.append_nil]

mutual

theorem Normal.normalize : ∀ {behind : List Node}, Normal behind → ∀ node, Clean node → Normal (Node.normalize node behind)
  | behind, normal, .element name attributes children, clean => by
    rw [Node.normalize]
    exact .element name attributes (Normal.nil.normalizeAll children clean.2.2) normal
  | behind, normal, .text content, clean => by
    rw [Node.normalize]
    exact normal.consText content
  | behind, normal, .raw markup, clean => clean.elim
  | behind, normal, .fragment nodes, clean => by
    rw [Node.normalize]
    exact normal.normalizeAll nodes clean

theorem Normal.normalizeAll : ∀ {behind : List Node}, Normal behind → ∀ nodes, AllClean nodes →
    Normal (Node.normalizeAll nodes behind)
  | behind, normal, [], clean => normal
  | behind, normal, node :: rest, clean => by
    rw [Node.normalizeAll]
    exact (normal.normalizeAll rest clean.2).normalize node clean.1

end

theorem Clean.normal {node : Node} (clean : node.Clean) : Normal node.normalForm := Normal.nil.normalize node clean

/-- What is in normal form stays as it is. -/
theorem Normal.normalizeAll_eq {nodes : List Node} (normal : Normal nodes) : Node.normalizeAll nodes [] = nodes := by
  induction normal with
  | nil => rfl
  | element name attributes _ _ inner others => rw [Node.normalizeAll, Node.normalize, inner, others]
  | text full alone _ others => rw [Node.normalizeAll, Node.normalize, others, consText_alone full alone]

end Node

end PatternPages.Html
