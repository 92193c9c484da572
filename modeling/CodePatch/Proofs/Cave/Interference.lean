/-
# Requests that make no difference

Whether a cave fits, and where, depends on the caves of its own class before it, and of
those only on the ones that are placed.  So a class does not see requests that need no
memory, requests that are too large, and requests of other classes: they can be left out,
any number of them and anywhere (`Thinned`), and every request of the class that is left
goes where it went before (`placements_do_not_interfere`).

What is compared is two runs over different lists, which agree throughout on what is given
out in the one class and on nothing else.
-/
import CodePatch.Proofs.Cave.Layout

namespace CodePatch

/-- A request and its placement are of no consequence to a class: nothing is given out
in it. -/
def CavePlacement.Idle (access : AccessClass) (entry : CaveRequest × CavePlacement) : Prop :=
  entry.2 = .empty ∨ entry.2 = .tooLarge ∨ entry.1.1 ≠ access

namespace CaveLayout

open CavePlacement (ofRequest extend Idle)

/-- Requests and their placements, and what is left of them when some that are of no
consequence to a class are left out. -/
inductive Thinned (access : AccessClass) :
    List (CaveRequest × CavePlacement) → List (CaveRequest × CavePlacement) → Prop
  | nil : Thinned access [] []
  | keep (entry : CaveRequest × CavePlacement) {all kept : List (CaveRequest × CavePlacement)}
      (rest : Thinned access all kept) : Thinned access (entry :: all) (entry :: kept)
  | drop {entry : CaveRequest × CavePlacement} {all kept : List (CaveRequest × CavePlacement)}
      (idle : Idle access entry) (rest : Thinned access all kept) :
      Thinned access (entry :: all) kept

/-- The requests with their placements. -/
def entries (used : ClassSizes) (requests : List CaveRequest) :
    List (CaveRequest × CavePlacement) :=
  requests.zip (behind used requests).placements

theorem entries_cons (used : ClassSizes) (request : CaveRequest) (rest : List CaveRequest) :
    entries used (request :: rest) = (request, ofRequest used request) ::
      entries ((ofRequest used request).extend used) rest :=
  rfl

/-- A request is placed by what is given out in its own class. -/
theorem ofRequest_congr {used used' : ClassSizes} {request : CaveRequest}
    (h : used' request.1 = used request.1) : ofRequest used' request = ofRequest used request := by
  obtain ⟨access, _ | size⟩ := request
  · rfl
  · have hused : used' access = used access := h
    simp only [ofRequest, hused]

theorem extend_of_idle {access : AccessClass} {used : ClassSizes} {request : CaveRequest}
    (h : Idle access (request, ofRequest used request)) :
    (ofRequest used request).extend used access = used access := by
  cases hplacement : ofRequest used request with
  | empty => rfl
  | tooLarge => rfl
  | placed slot =>
      obtain ⟨hrequest, -⟩ := CavePlacement.ofRequest_placed hplacement
      rw [hplacement, hrequest] at h
      rcases h with hempty | hlarge | haccess
      · cases hempty
      · cases hlarge
      · exact if_neg (Ne.symm haccess)

/-- What a placement gives out in a class depends on what is given out in it. -/
theorem extend_congr {access : AccessClass} {used used' : ClassSizes}
    (h : used' access = used access) (placement : CavePlacement) :
    placement.extend used' access = placement.extend used access := by
  cases placement with
  | empty => exact h
  | tooLarge => exact h
  | placed slot => simp only [extend, h]

/-- The step of the two runs: agreeing on a class, they agree on it after a request that both
of them place, whatever class it is of. -/
theorem extend_agrees {access : AccessClass} {used used' : ClassSizes}
    (h : used' access = used access) (request : CaveRequest) :
    (ofRequest used' request).extend used' access =
      (ofRequest used request).extend used access := by
  by_cases haccess : request.1 = access
  · subst haccess
    rw [ofRequest_congr h]
    exact extend_congr h _
  · rw [extend_of_idle (Or.inr (Or.inr haccess)), extend_of_idle (Or.inr (Or.inr haccess)), h]

/-- Agreeing on a class before, a run over all requests and one over what is left of them
agree on it afterwards, and on the placements of its requests. -/
theorem thinned_agrees {access : AccessClass} {requests : List CaveRequest}
    {all kept : List (CaveRequest × CavePlacement)} (h : Thinned access all kept)
    (used used' : ClassSizes) (hall : all = entries used requests)
    (hused : used' access = used access) :
    (∀ (i : Nat) request placement, kept[i]? = some (request, placement) → request.1 = access →
      (behind used' (kept.map Prod.fst)).placements[i]? = some placement) ∧
    (behind used' (kept.map Prod.fst)).used access = (behind used requests).used access := by
  induction h generalizing requests used used' with
  | nil =>
      cases requests with
      | nil =>
          refine ⟨?_, hused⟩
          rintro i request placement ⟨⟩
      | cons request rest => cases hall
  | keep entry rest ih =>
      cases requests with
      | nil => cases hall
      | cons request rest =>
          rw [entries_cons] at hall
          obtain ⟨rfl, hrest⟩ := List.cons.inj hall
          obtain ⟨hplacements, hend⟩ := ih _ _ hrest (extend_agrees hused request)
          refine ⟨fun i found placement hfound haccess => ?_, hend⟩
          cases i with
          | zero =>
              cases hfound
              exact congrArg some (ofRequest_congr (haccess ▸ hused))
          | succ i => exact hplacements i found placement hfound haccess
  | drop idle rest ih =>
      cases requests with
      | nil => cases hall
      | cons request rest =>
          rw [entries_cons] at hall
          obtain ⟨rfl, hrest⟩ := List.cons.inj hall
          have hafter : used' access = (ofRequest used request).extend used access :=
            hused.trans (extend_of_idle idle).symm
          have hagrees := ih _ _ hrest hafter
          exact hagrees

/-- Whatever is left out that is of no consequence to a class: its requests that are left
have the placements that they had, and it needs the same region. -/
theorem placements_do_not_interfere {requests : List CaveRequest} {access : AccessClass}
    {kept : List (CaveRequest × CavePlacement)}
    (h : Thinned access (requests.zip (ofRequests requests).placements) kept) :
    let layout := ofRequests (kept.map Prod.fst)
    (∀ (i : Nat) request placement, kept[i]? = some (request, placement) → request.1 = access →
      layout.placements[i]? = some placement) ∧
    ∀ size, (access, size) ∈ layout.classSizes ↔
      (access, size) ∈ (ofRequests requests).classSizes := by
  obtain ⟨hplacements, hused⟩ := thinned_agrees h (fun _ => 0) (fun _ => 0) rfl rfl
  refine ⟨hplacements, fun size => ?_⟩
  rw [mem_classSizes, mem_classSizes]
  unfold ofRequests
  rw [hused]

/-- Three caves of a class, among others: one that is too large for any region, one of
another class, and one that needs no memory. -/
def mixedRequests : List CaveRequest :=
  [(.rw, some 32), (.rx, some 5), (.rw, some 0xFFFFFFF8), (.rw, some 8), (.rw, none),
    (.rw, some 16)]

/-- What is left of the class is placed as before. -/
theorem sample_placements_do_not_interfere :
    Thinned .rw (mixedRequests.zip (ofRequests mixedRequests).placements)
      [((.rw, some 32), .placed ⟨.rw, 0, 32, 48⟩), ((.rw, some 8), .placed ⟨.rw, 48, 8, 16⟩),
        ((.rw, some 16), .placed ⟨.rw, 64, 16, 32⟩)] ∧
    (ofRequests [(.rw, some 32), (.rw, some 8), (.rw, some 16)]).placements[2]? =
      some (.placed ⟨.rw, 64, 16, 32⟩) ∧
    (.rw, 96) ∈ (ofRequests [(.rw, some 32), (.rw, some 8), (.rw, some 16)]).classSizes := by
  have hthinned : Thinned .rw (mixedRequests.zip (ofRequests mixedRequests).placements)
      [((.rw, some 32), .placed ⟨.rw, 0, 32, 48⟩), ((.rw, some 8), .placed ⟨.rw, 48, 8, 16⟩),
        ((.rw, some 16), .placed ⟨.rw, 64, 16, 32⟩)] :=
    .keep _ (.drop (Or.inr (Or.inr (by decide))) (.drop (Or.inr (Or.inl rfl))
      (.keep _ (.drop (Or.inl rfl) (.keep _ .nil)))))
  obtain ⟨hplacements, hsizes⟩ := placements_do_not_interfere hthinned
  exact ⟨hthinned, hplacements 2 _ _ rfl rfl, (hsizes 96).mpr (by decide)⟩

end CaveLayout
end CodePatch
