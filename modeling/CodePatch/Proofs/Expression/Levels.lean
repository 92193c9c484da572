/-
# The same text elsewhere, with more levels

A text may be read twice: alone, and further on in another text, inside of
brackets that have taken levels of nesting before it.  The two readings come to
the same, up to the offsets that they report, unless one of them runs out of
levels: then the other may get further.

What a text needs is how deeply it is nested.  It is nested within a depth if
that many levels, and one for the innermost operand, are enough to read it
(`NestedWithin`); what is read so is read alike with any more levels, anywhere.
How much is enough can be told from the characters of the text
(`nestedWithin_of_nesting_le`).
-/
import CodePatch.Proofs.Expression.Walk

namespace CodePatch.Expression

/-- Unary operators and brackets are nested in `text` at most `depth` deep: with so many levels,
and one for the innermost operand, reading it does not run out of them. -/
def NestedWithin (scope : Scope) (depth : Nat) (text : List Char) : Prop :=
  ∀ offset reads, enclosed (operand scope (depth + 1)) false ⟨0, text, 0⟩ ≠
    .error ⟨.nestingTooDeep offset, reads⟩

/-- Signs, casts and brackets that are not nested too deeply are enough to know. -/
theorem nestedWithin_of_nesting_le {depth : Nat} {text : List Char} (h : nesting text ≤ depth)
    (scope : Scope) : NestedWithin scope depth text := by
  intro offset reads hdeep
  have hnesting : depth + 1 ≤ nesting text :=
    ((tracks_whole scope {} (depth + 1) false ⟨0, text, 0⟩).fails hdeep).deep offset rfl
  exact Nat.not_succ_le_self depth (Nat.le_trans hnesting h)

section Values

variable {t : Rereading} {Goes : Cursor → Prop} {Fails : Failure → Prop} {r r' : Evaluated}
  {v : UInt32} {c : Cursor} (h : Tracks t Goes Fails r r') (hsame : t.skipped = none)
include h hsame

theorem Tracks.eq_ok (hr : r = .ok (v, c)) : r' = .ok (v, t.place c) := by
  subst hr
  cases h with
  | reached halike _ => rw [halike hsame]

theorem Tracks.exists_eq_ok (hr' : r' = .ok (v, c))
    (hdeep : ∀ offset reads, r ≠ .error ⟨.nestingTooDeep offset, reads⟩) :
    ∃ c₀, r = .ok (v, c₀) ∧ c = t.place c₀ := by
  subst hr'
  generalize hr' : Except.ok (v, c) = r' at h
  cases h with
  | reached halike _ =>
      cases hr'
      exact ⟨_, by rw [halike hsame], rfl⟩
  | failed => cases hr'
  | lacking _ _ hskipped _ => exact absurd hsame hskipped
  | tooDeep => exact absurd rfl (hdeep _ _)

end Values

/-- What is not nested too deeply is read alike wherever it stands, with however many levels
more. -/
theorem NestedWithin.enclosed_eq {scope : Scope} {depth levels more : Nat} {text : List Char}
    {value : UInt32} {reached : Cursor} (h : NestedWithin scope depth text)
    (hlevels : depth < levels) (hmore : depth < more)
    (hread : enclosed (operand scope levels) false ⟨0, text, 0⟩ = .ok (value, reached))
    {c : Cursor} (hrest : c.rest = text) (hreads : c.reads = 0) :
    enclosed (operand scope more) false c =
      .ok (value, Rereading.place { distance := c.offset } reached) := by
  have hhere := tracks_whole scope { deeper := levels - (depth + 1) } (depth + 1) false ⟨0, text, 0⟩
  rw [Nat.add_sub_cancel' hlevels] at hhere
  obtain ⟨first, hfirst, rfl⟩ := hhere.exists_eq_ok rfl hread h
  have hthere := tracks_whole scope { distance := c.offset, deeper := more - (depth + 1) }
    (depth + 1) false ⟨0, text, 0⟩
  rw [Nat.add_sub_cancel' hmore] at hthere
  have hc : Rereading.place { distance := c.offset } ⟨0, text, 0⟩ = c := by
    rw [Rereading.place, Nat.zero_add, ← hrest, ← hreads]
    rfl
  exact (congrArg (enclosed (operand scope more) false) hc.symm).trans (hthere.eq_ok rfl hfirst)

end CodePatch.Expression
