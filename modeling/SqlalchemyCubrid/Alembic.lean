import SqlalchemyCubrid.Dialect.ResolveType

/-!
# Comparing column types

`CubridImpl.compare_type` decides whether a reflected column differs from the
model.  For collection types it compares the kind and the element type up to
case and outer white space; any other pair goes to Alembic's own comparison.

`collection_autogenerate_converges` puts the three parts together: what
`get_col_spec` prints, `_resolve_type` reads back, and the comparison of the two
finds exactly the differences in kind and element type.
-/

namespace SqlalchemyCubrid.Alembic

open Python SqlalchemyCubrid.Types Dialect

theorem isTypeName_keyword (kind : CollectionKind) : IsTypeName (kind.keyword ++ "_OF".toList) := by
  cases kind <;> decide

section Compare

variable [UnicodeData]

/-- The element type as `compare_type` compares it. -/
def elementKey (elementType : Str) : Str := upper (strip elementType)

/-- `CubridImpl.compare_type`; `compareSuper` is `DefaultImpl.compare_type`, for
pairs with no collection type. -/
def compareType (compareSuper : SqlType → SqlType → Bool) : SqlType → SqlType → Bool
  | .collection kind e, .collection kind' e' =>
    if kind ≠ kind' then true else elementKey e != elementKey e'
  | .collection _ _, _ => true
  | _, .collection _ _ => true
  | connType, metaType => compareSuper connType metaType

theorem compareType_collection_eq_false_iff (compareSuper : SqlType → SqlType → Bool)
    (kind kind' : CollectionKind) (e e' : Str) :
    compareType compareSuper (.collection kind e) (.collection kind' e') = false ↔
      kind = kind' ∧ elementKey e = elementKey e' := by
  rw [compareType]
  by_cases hk : kind = kind'
  · rw [if_neg (not_not.mpr hk), bne_eq_false_iff_eq]
    exact ⟨fun h => ⟨hk, h⟩, fun h => h.2⟩
  · rw [if_pos hk]
    exact ⟨fun h => absurd h (by decide), fun h => absurd h.1 hk⟩

/-- **The printer and the reader of collection types fit.** -/
theorem resolveType_getColSpec (kind : CollectionKind) {e : Str} (he : e ≠ [])
    (hn : ∀ c ∈ e, c ≠ '\n') : resolveType (getColSpec kind e) = .collection kind e := by
  have hread : ∀ kind : CollectionKind,
      resolveBase (kind.keyword ++ "_OF".toList) (some e) = .collection kind e := by
    intro kind
    cases kind <;>
      · rw [resolveBase]
        simp only [construct, truthy_some he]
        rfl
  rw [getColSpec, resolveType_params (isTypeName_keyword kind) he hn]
  exact hread kind

/-- **Autogenerate converges.**  Reflecting a collection column gives back its
kind and element type, and comparing it with a model column finds no change
exactly when the kinds are the same and the element types agree. -/
theorem collection_autogenerate_converges (compareSuper : SqlType → SqlType → Bool)
    (kind kind' : CollectionKind) (e e' : Str) (he : e ≠ []) (hn : ∀ c ∈ e, c ≠ '\n') :
    resolveType (getColSpec kind e) = .collection kind e ∧
      (compareType compareSuper (resolveType (getColSpec kind e)) (.collection kind' e') = false ↔
        kind = kind' ∧ upper (strip e) = upper (strip e')) := by
  have hread := resolveType_getColSpec kind he hn
  refine ⟨hread, ?_⟩
  rw [hread]
  exact compareType_collection_eq_false_iff compareSuper kind kind' e e'

end Compare

/-- An element type with parentheses, quotes and a comma of its own. -/
theorem collection_autogenerate_converges_enum :
    let _ := asciiData
    let e := "ENUM('a(', 'b')".toList
    let e' := " enum('A(', 'B') ".toList
    resolveType (getColSpec .list e) = .collection .list e ∧
      (compareType (fun _ _ => true) (resolveType (getColSpec .list e)) (.collection .list e')
          = false ↔
        CollectionKind.list = .list ∧ upper (strip e) = upper (strip e')) := by
  intro _ e e'
  exact collection_autogenerate_converges (fun _ _ => true) .list .list e e' (by decide) (by decide)

end SqlalchemyCubrid.Alembic
