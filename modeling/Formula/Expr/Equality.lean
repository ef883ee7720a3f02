import Formula.Expr

/-!
Structural equality of expression trees, decided.

The properties of an object are compared in order, as everything else is.
-/

namespace Formula.Expr

mutual

/-- Whether two trees are equal. -/
def beq : Expr → Expr → Bool
  | .constant v k, .constant v' k' => v == v' && k == k'
  | .symbol n, .symbol n' => n == n'
  | .operation s f es j, .operation s' f' es' j' => s == s' && f == f' && beqList es es' && j == j'
  | .call c es, .call c' es' => beq c c' && beqList es es'
  | .range a b s, .range a' b' s' => beq a a' && beq b b' && beqOption s s'
  | .conditional c t f, .conditional c' t' f' => beq c c' && beq t t' && beq f f'
  | .assignment t i v, .assignment t' i' v' => beq t t' && beqOption i i' && beq v v'
  | .definition n ps b, .definition n' ps' b' => n == n' && ps == ps' && beq b b'
  | .block es, .block es' => beqEntries es es'
  | .array es, .array es' => beqList es es'
  | .object ps, .object ps' => beqProperties ps ps'
  | .parenthesis e, .parenthesis e' => beq e e'
  | .index es d, .index es' d' => beqList es es' && d == d'
  | .access o i, .access o' i' => beq o o' && beq i i'
  | .comparison fs es, .comparison fs' es' => fs == fs' && beqList es es'
  | _, _ => false

/-- Whether two lists of trees are equal. -/
def beqList : List Expr → List Expr → Bool
  | [], [] => true
  | e :: es, e' :: es' => beq e e' && beqList es es'
  | _, _ => false

/-- Whether two trees that may be absent are equal. -/
def beqOption : Option Expr → Option Expr → Bool
  | none, none => true
  | some e, some e' => beq e e'
  | _, _ => false

/-- Whether two lists of statements are equal. -/
def beqEntries : List (Entry Expr) → List (Entry Expr) → Bool
  | [], [] => true
  | ⟨e, v⟩ :: es, ⟨e', v'⟩ :: es' => beq e e' && v == v' && beqEntries es es'
  | _, _ => false

/-- Whether two lists of properties are equal. -/
def beqProperties : List (String × Expr) → List (String × Expr) → Bool
  | [], [] => true
  | (k, e) :: ps, (k', e') :: ps' => k == k' && beq e e' && beqProperties ps ps'
  | _, _ => false

end

mutual

theorem beq_iff : ∀ a b : Expr, beq a b = true ↔ a = b
  | .constant .., b => by cases b <;> simp [beq]
  | .symbol _, b => by cases b <;> simp [beq]
  | .operation _ _ es _, b => by cases b <;> simp [beq, beqList_iff es, and_assoc]
  | .call c es, b => by cases b <;> simp [beq, beq_iff c, beqList_iff es]
  | .range a b s, c => by cases c <;> simp [beq, beq_iff a, beq_iff b, beqOption_iff s, and_assoc]
  | .conditional c t f, b => by
      cases b <;> simp [beq, beq_iff c, beq_iff t, beq_iff f, and_assoc]
  | .assignment t i v, b => by
      cases b <;> simp [beq, beq_iff t, beqOption_iff i, beq_iff v, and_assoc]
  | .definition _ _ b, c => by cases c <;> simp [beq, beq_iff b, and_assoc]
  | .block es, b => by cases b <;> simp [beq, beqEntries_iff es]
  | .array es, b => by cases b <;> simp [beq, beqList_iff es]
  | .object ps, b => by cases b <;> simp [beq, beqProperties_iff ps]
  | .parenthesis e, b => by cases b <;> simp [beq, beq_iff e]
  | .index es _, b => by cases b <;> simp [beq, beqList_iff es]
  | .access o i, b => by cases b <;> simp [beq, beq_iff o, beq_iff i]
  | .comparison _ es, b => by cases b <;> simp [beq, beqList_iff es]

theorem beqList_iff : ∀ es fs : List Expr, beqList es fs = true ↔ es = fs
  | [], fs => by cases fs <;> simp [beqList]
  | e :: es, fs => by cases fs <;> simp [beqList, beq_iff e, beqList_iff es]

theorem beqOption_iff : ∀ a b : Option Expr, beqOption a b = true ↔ a = b
  | none, b => by cases b <;> simp [beqOption]
  | some e, b => by cases b <;> simp [beqOption, beq_iff e]

theorem beqEntries_iff : ∀ es fs : List (Entry Expr), beqEntries es fs = true ↔ es = fs
  | [], fs => by cases fs <;> simp [beqEntries]
  | _ :: _, [] => by simp [beqEntries]
  | ⟨e, _⟩ :: es, ⟨_, _⟩ :: fs => by simp [beqEntries, beq_iff e, beqEntries_iff es]

theorem beqProperties_iff : ∀ ps qs : List (String × Expr), beqProperties ps qs = true ↔ ps = qs
  | [], qs => by cases qs <;> simp [beqProperties]
  | _ :: _, [] => by simp [beqProperties]
  | (_, e) :: ps, (_, _) :: qs => by
      simp [beqProperties, beq_iff e, beqProperties_iff ps, and_assoc]

end

instance : DecidableEq Expr := fun a b =>
  decidable_of_iff (beq a b = true) (beq_iff a b)

end Formula.Expr
