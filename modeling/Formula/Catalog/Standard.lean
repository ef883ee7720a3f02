import Formula.Catalog.Arithmetic
import Formula.Catalog.Collections
import Formula.Catalog.Logic

/-!
The standard catalog: doubles, conditions, strings and arrays.
-/

namespace Formula.Catalog

/-- The catalog with the given signatures, in order, and constants. -/
def ofLists (signatures : List (String × Signature)) (constants : List (String × Value)) :
    Catalog :=
  let c := signatures.foldl (fun c (name, signature) => c.define name signature) {}
  constants.foldl (fun c (name, value) => c.defineConstant name value) c

/-- The standard catalog. -/
def standard : Catalog :=
  ofLists (arithmetic ++ strings ++ equality ++ orderings ++ logic ++ bitwise ++ elementary
    ++ inspection ++ collections) numbers

/-- The resolver that knows the standard operations and no constants. -/
def standardCalls : Resolver Unit :=
  .ofCall standard.call

end Formula.Catalog
