import Formula.Rendering

/-!
Templates for expressions: texts in which a mark stands for the children.
-/

namespace Formula

/-- A template with the texts of the children, between bars, in each place where it has an `@`. -/
def fillTemplate (template : String) (children : List String) : String :=
  String.ofList (template.toList.flatMap fun c =>
    if c = '@' then ("|".intercalate children).toList else [c])

/-- The style in which the expressions whose forms have templates are written by these. -/
def Style.withTemplates (style : Style) (templates : Record String) : Style :=
  { style with custom := fun e => (templates.get? e.form.name).map fillTemplate }

end Formula
