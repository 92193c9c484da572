/-
# Publishing caves

Binding the names of caves adds one binding for each cave that is located, in
the order of the caves, and touches no binding that is there already
(`bindings_publishAll`).  Since a name is bound once, a located cave is found
under its name ever after (`bound?_of_located`), and no two caves are located
under one name.  Nothing else keeps a planned cave from its address: it is
located if its class has a region, its name is free, and no cave before it has
the same name (`located_of_free`).
-/
import Mathlib
import CodePatch.Cave.Stage

namespace CodePatch

namespace Symbols

theorem toList_caveName (cave : String) : (caveName cave).toList = caveMark ++ cave.toList :=
  String.toList_ofList

theorem caveName_injective : Function.Injective caveName := by
  intro cave other h
  have hlist := congrArg String.toList h
  rw [toList_caveName, toList_caveName] at hlist
  exact String.toList_inj.mp (List.append_cancel_left hlist)

theorem after?_caveAlias_caveName (cave : String) :
    Text.after? caveAlias (caveName cave).toList = none := by
  rw [toList_caveName]
  simp [Text.after?, caveAlias, caveMark]

theorem get?_caveName (s : Symbols) (cave : String) :
    s.get? (caveName cave) = s.bound? (caveName cave) := by
  rw [get?, after?_caveAlias_caveName]

theorem bindings_bind {s : Symbols} {name : String} (h : s.isFree name = true)
    (address : UInt32) : (s.bind name address).bindings = s.bindings ++ [(name, address)] := by
  unfold bind
  rw [isFree] at h
  cases hb : s.bound? name with
  | none => rfl
  | some a =>
      rw [hb] at h
      cases h

theorem bound?_of_append {s s' : Symbols} {more : List (String × UInt32)}
    (h : s'.bindings = s.bindings ++ more) {name : String} {address : UInt32}
    (hb : s.bound? name = some address) : s'.bound? name = some address := by
  unfold bound? at hb ⊢
  rw [h, List.lookup_append, hb]
  rfl

end Symbols

namespace CaveStage

variable {regions : List CaveRegion}

/-- What publishing makes of a job. -/
inductive Published (regions : List CaveRegion) : CaveJob → CaveJob → Prop where
  | same {job : CaveJob} (h : ∀ code slot, job.progress = .planned code slot →
      addressOf? regions slot = none) : Published regions job job
  | located {cave : Cave} {code : Option Code} {slot : CaveSlot} {address : UInt32}
      (h : addressOf? regions slot = some address) :
      Published regions ⟨cave, .planned code slot⟩ ⟨cave, .located code slot address⟩
  | rejected {cave : Cave} {code : Option Code} {slot : CaveSlot} :
      Published regions ⟨cave, .planned code slot⟩ ⟨cave, .rejected⟩

theorem Published.cave {job job' : CaveJob} (h : Published regions job job') :
    job'.cave = job.cave := by
  cases h <;> rfl

theorem placedCave?_eq_some {job : CaveJob} {p : PlacedCave} (h : placedCave? job = some p) :
    ∃ code slot address, job.progress = .located code slot address ∧
      p = ⟨job.cave.name, address, slot.size, slot.padded⟩ := by
  obtain ⟨cave, progress⟩ := job
  cases progress with
  | located code slot address =>
      cases h
      exact ⟨code, slot, address, rfl, rfl⟩
  | rejected => cases h
  | empty => cases h
  | planned code slot => cases h

/-- The binding of a cave that is located. -/
def binding (p : PlacedCave) : String × UInt32 :=
  (Symbols.caveName p.name, p.address)

/-- Publishing a job locates it and binds its name, which was free; or it binds nothing. -/
theorem publish_cases (regions : List CaveRegion) (symbols : Symbols) {job : CaveJob}
    (hjob : placedCave? job = none) :
    Published regions job (publish regions symbols job).1 ∧
    (publish regions symbols job).2.1.bindings =
      symbols.bindings ++ ((placedCave? (publish regions symbols job).1).map binding).toList ∧
    ∀ p, placedCave? (publish regions symbols job).1 = some p →
      symbols.bound? (Symbols.caveName p.name) = none ∧
      (publish regions symbols job).2.1.bound? (Symbols.caveName p.name) = some p.address := by
  obtain ⟨cave, progress⟩ := job
  cases progress with
  | rejected =>
      exact ⟨.same (fun _ _ h => nomatch h), (List.append_nil _).symm, fun _ h => nomatch h⟩
  | empty => exact ⟨.same (fun _ _ h => nomatch h), (List.append_nil _).symm, fun _ h => nomatch h⟩
  | located code slot address => cases hjob
  | planned code slot =>
      simp only [publish]
      cases haddr : addressOf? regions slot with
      | none =>
          refine ⟨.same fun _ _ h => ?_, (List.append_nil _).symm, fun _ h => nomatch h⟩
          cases h
          exact haddr
      | some address =>
          dsimp only
          split
          · rename_i hfree
            refine ⟨.located haddr, Symbols.bindings_bind hfree address, fun p h => ?_⟩
            cases h
            refine ⟨Option.isNone_iff_eq_none.mp hfree, ?_⟩
            rw [Symbols.bound?_bind, if_pos ⟨rfl, hfree⟩]
          · exact ⟨.rejected, (List.append_nil _).symm, fun _ h => nomatch h⟩

theorem bound?_publish_of_ne (symbols : Symbols) {job : CaveJob}
    (hjob : placedCave? job = none) {name : String} (hne : job.cave.name ≠ name)
    (h : symbols.bound? (Symbols.caveName name) = none) :
    (publish regions symbols job).2.1.bound? (Symbols.caveName name) = none := by
  obtain ⟨hpublished, hbindings, -⟩ := publish_cases regions symbols hjob
  rw [Symbols.bound?] at h ⊢
  rw [hbindings, List.lookup_append, h, Option.none_or]
  cases hplaced : placedCave? (publish regions symbols job).1 with
  | none => rfl
  | some p =>
      obtain ⟨code, slot, address, -, rfl⟩ := placedCave?_eq_some hplaced
      rw [← hpublished.cave] at hne
      have hkey : Symbols.caveName name ≠ Symbols.caveName _ := fun h =>
        hne (Symbols.caveName_injective h).symm
      simp [binding, List.lookup_cons, beq_false_of_ne hkey]

section PublishAll
variable (regions) (symbols : Symbols) {jobs : List CaveJob}
  (hjobs : ∀ job ∈ jobs, placedCave? job = none)
include hjobs

theorem publishAll_at : (publishAll regions symbols jobs).1.length = jobs.length ∧
    ∀ (i : Nat) (job : CaveJob), jobs[i]? = some job → ∃ job',
      (publishAll regions symbols jobs).1[i]? = some job' ∧
      Published regions job job' := by
  induction jobs generalizing symbols with
  | nil => exact ⟨rfl, fun i job h => nomatch h⟩
  | cons first rest ih =>
      have hfirst := (publish_cases regions symbols (hjobs first List.mem_cons_self)).1
      obtain ⟨hlen, hrest⟩ := ih (publish regions symbols first).2.1
        fun job h => hjobs job (List.mem_cons_of_mem _ h)
      simp only [publishAll]
      refine ⟨congrArg Nat.succ hlen, fun i job h => ?_⟩
      cases i with
      | zero =>
          cases h
          exact ⟨_, rfl, hfirst⟩
      | succ i => exact hrest i job h

/-- Publishing adds a binding for each cave that is located, and nothing else. -/
theorem bindings_publishAll : (publishAll regions symbols jobs).2.1.bindings =
    symbols.bindings ++
      ((publishAll regions symbols jobs).1.filterMap placedCave?).map binding := by
  induction jobs generalizing symbols with
  | nil => exact (List.append_nil _).symm
  | cons first rest ih =>
      have hfirst := (publish_cases regions symbols (hjobs first List.mem_cons_self)).2.1
      have hrest := ih (publish regions symbols first).2.1
        fun job h => hjobs job (List.mem_cons_of_mem _ h)
      simp only [publishAll, hrest, hfirst, List.append_assoc, List.filterMap_cons]
      cases placedCave? (publish regions symbols first).1 <;> rfl

theorem bound?_of_located {p : PlacedCave}
    (h : p ∈ (publishAll regions symbols jobs).1.filterMap placedCave?) :
    (publishAll regions symbols jobs).2.1.bound? (Symbols.caveName p.name) = some p.address := by
  induction jobs generalizing symbols with
  | nil => exact absurd h List.not_mem_nil
  | cons first rest ih =>
      have hfirst := (publish_cases regions symbols (hjobs first List.mem_cons_self)).2.2
      have hjobs' : ∀ job ∈ rest, placedCave? job = none :=
        fun job h => hjobs job (List.mem_cons_of_mem _ h)
      simp only [publishAll, List.filterMap_cons] at h ⊢
      have hlater : ∀ q, placedCave? (publish regions symbols first).1 = some q →
          (publishAll regions (publish regions symbols first).2.1 rest).2.1.bound?
            (Symbols.caveName q.name) = some q.address := fun q hq =>
        Symbols.bound?_of_append (bindings_publishAll regions _ hjobs') (hfirst q hq).2
      cases hplaced : placedCave? (publish regions symbols first).1 with
      | none =>
          rw [hplaced] at h
          exact ih _ hjobs' h
      | some q =>
          rw [hplaced] at h
          rcases List.mem_cons.mp h with rfl | h
          · exact hlater _ hplaced
          · exact ih _ hjobs' h

theorem free_of_located {p : PlacedCave}
    (h : p ∈ (publishAll regions symbols jobs).1.filterMap placedCave?) :
    symbols.bound? (Symbols.caveName p.name) = none := by
  induction jobs generalizing symbols with
  | nil => exact absurd h List.not_mem_nil
  | cons first rest ih =>
      obtain ⟨-, hbindings, hfirst⟩ :=
        publish_cases regions symbols (hjobs first List.mem_cons_self)
      have hjobs' : ∀ job ∈ rest, placedCave? job = none :=
        fun job h => hjobs job (List.mem_cons_of_mem _ h)
      simp only [publishAll, List.filterMap_cons] at h
      -- a name that is free after the first job was free before it
      have hback : ∀ name, (publish regions symbols first).2.1.bound? name = none →
          symbols.bound? name = none := by
        intro name hnone
        cases hb : symbols.bound? name with
        | none => rfl
        | some address =>
            rw [Symbols.bound?_of_append hbindings hb] at hnone
            cases hnone
      cases hplaced : placedCave? (publish regions symbols first).1 with
      | none =>
          rw [hplaced] at h
          exact hback _ (ih _ hjobs' h)
      | some q =>
          rw [hplaced] at h
          rcases List.mem_cons.mp h with rfl | h
          · exact (hfirst _ hplaced).1
          · exact hback _ (ih _ hjobs' h)

theorem newly_bound_iff {name : String} :
    (symbols.bound? name = none ∧
        ((publishAll regions symbols jobs).2.1.bound? name).isSome = true) ↔
      ∃ p ∈ (publishAll regions symbols jobs).1.filterMap placedCave?,
        name = Symbols.caveName p.name := by
  constructor
  · rintro ⟨hfree, hbound⟩
    rw [Symbols.bound?, bindings_publishAll regions symbols hjobs, List.lookup_append] at hbound
    rw [Symbols.bound?] at hfree
    rw [hfree, Option.none_or, List.lookup_isSome_iff] at hbound
    obtain ⟨pair, hpair, hname⟩ := hbound
    obtain ⟨p, hp, rfl⟩ := List.mem_map.mp hpair
    exact ⟨p, hp, eq_of_beq hname⟩
  · rintro ⟨p, hp, rfl⟩
    refine ⟨free_of_located regions symbols hjobs hp, ?_⟩
    rw [bound?_of_located regions symbols hjobs hp]
    rfl

/-- A planned cave that is the first of its name, which is free, is located if
there is a region for it. -/
theorem located_of_free {i : Nat} {cave : Cave} {code : Option Code} {slot : CaveSlot}
    {address : UInt32} (h : jobs[i]? = some ⟨cave, .planned code slot⟩)
    (haddress : addressOf? regions slot = some address)
    (hfree : symbols.bound? (Symbols.caveName cave.name) = none)
    (hfirst : cave.name ∉ (jobs.take i).map (·.cave.name)) :
    (publishAll regions symbols jobs).1[i]? = some ⟨cave, .located code slot address⟩ := by
  induction jobs generalizing symbols i with
  | nil => cases h
  | cons first rest ih =>
      simp only [publishAll]
      cases i with
      | zero =>
          cases h
          have hisFree : symbols.isFree (Symbols.caveName cave.name) = true :=
            Option.isNone_iff_eq_none.mpr hfree
          simp only [publish, haddress, hisFree, if_true, List.getElem?_cons_zero]
      | succ i =>
          rw [List.take_succ_cons, List.map_cons, List.mem_cons, not_or] at hfirst
          exact ih _ (fun job hjob => hjobs job (List.mem_cons_of_mem _ hjob)) h
            (bound?_publish_of_ne symbols (hjobs first List.mem_cons_self)
              (Ne.symm hfirst.1) hfree) hfirst.2

end PublishAll

end CaveStage
end CodePatch
