import Featherweight.Proofs.Evaluation.Numbering
import Featherweight.Session
import Mathlib.Data.List.Nodup

/-!
# Functions in programs

The functions that stand in a tree (`Expr.functions`), those inside others among them. A closure
shows which one it was made from but for the scope it was made in (`Closure.node`).

What makes a site stand for one function is that programs get their sites when they are taken in:
the functions of a tree get the sites from one free site up to the next (`Expr.getsSites_number`),
so those of all programs that a session takes in have sites of their own
(`distinctSites_mapM_load`).
-/

namespace Featherweight

/-- A function as it stands in a program. -/
structure FunctionNode where
  site : Site
  params : List String
  body : Expr

/-- The function that a closure was made from. -/
def Closure.node (c : Closure) : FunctionNode := ⟨c.site, c.params, c.body⟩

theorem Closure.eq_of_node {c d : Closure} (hnode : c.node = d.node) (hscope : c.scope = d.scope) :
    c = d := by
  cases c
  cases d
  cases hnode
  cases hscope
  rfl

mutual

/-- The functions that stand in a tree, the outer ones before the inner ones. -/
def Expr.functions : Expr → List FunctionNode
  | .literal _             => []
  | .ident _               => []
  | .print t               => t.functions
  | .binary _ l r          => l.functions ++ r.functions
  | .ifElse c yes no       => c.functions ++ yes.functions ++ no.functions
  | .loop c body           => c.functions ++ body.functions
  | .seq a b               => a.functions ++ b.functions
  | .declare _ t           => t.functions
  | .assign _ t            => t.functions
  | .function site ps body => ⟨site, ps, body⟩ :: body.functions
  | .call f args           => f.functions ++ functionsOfArgs args

/-- The functions that stand in arguments, or in programs. -/
def functionsOfArgs : List Expr → List FunctionNode
  | []        => []
  | t :: args => t.functions ++ functionsOfArgs args

end

theorem functions_subset_functionsOfArgs {t : Expr} {ts : List Expr} (ht : t ∈ ts) :
    t.functions ⊆ functionsOfArgs ts := by
  induction ts with
  | nil => cases ht
  | cons u ts ih =>
    rcases List.mem_cons.1 ht with rfl | ht
    · exact List.subset_append_left _ _
    · exact List.Subset.trans (ih ht) (List.subset_append_right _ _)

/-- Are the functions that stand in the bodies of these functions among them? -/
def Nested (fs : List FunctionNode) : Prop := ∀ f ∈ fs, f.body.functions ⊆ fs

theorem nested_nil : Nested [] := nofun

theorem Nested.append {fs gs : List FunctionNode} (hf : Nested fs) (hg : Nested gs) :
    Nested (fs ++ gs) := by
  intro f hmem
  rcases List.mem_append.1 hmem with h | h
  · exact List.Subset.trans (hf f h) (List.subset_append_left _ _)
  · exact List.Subset.trans (hg f h) (List.subset_append_right _ _)

mutual

theorem Expr.nested_functions : ∀ t : Expr, Nested t.functions
  | .literal _      => nested_nil
  | .ident _        => nested_nil
  | .print t        => t.nested_functions
  | .binary _ l r   => l.nested_functions.append r.nested_functions
  | .ifElse c y n   => (c.nested_functions.append y.nested_functions).append n.nested_functions
  | .loop c b       => c.nested_functions.append b.nested_functions
  | .seq a b        => a.nested_functions.append b.nested_functions
  | .declare _ t    => t.nested_functions
  | .assign _ t     => t.nested_functions
  | .function s p b => by
    intro f hf
    rcases List.mem_cons.1 hf with rfl | hf
    · exact List.subset_cons_self _ _
    · exact List.Subset.trans (b.nested_functions f hf) (List.subset_cons_self _ _)
  | .call f args    => f.nested_functions.append (nested_functionsOfArgs args)

theorem nested_functionsOfArgs : ∀ ts : List Expr, Nested (functionsOfArgs ts)
  | []      => nested_nil
  | t :: ts => t.nested_functions.append (nested_functionsOfArgs ts)

end

/-! ### Sites -/

/-- Do no two functions that stand in the programs share their site? -/
def DistinctSites (programs : List Expr) : Prop :=
  ∀ f ∈ functionsOfArgs programs, ∀ g ∈ functionsOfArgs programs, f.site = g.site → f = g

/-- Do the functions have sites of their own, from `k` on and before `k'`? -/
structure GetsSites (k : Site) (fs : List FunctionNode) (k' : Site) : Prop where
  le : k ≤ k'
  within : ∀ f ∈ fs, k ≤ f.site ∧ f.site < k'
  nodup : (fs.map FunctionNode.site).Nodup

namespace GetsSites

variable {k k' k'' : Site} {fs gs : List FunctionNode}

theorem nil : GetsSites k [] k := ⟨Nat.le_refl k, nofun, List.nodup_nil⟩

theorem append (h : GetsSites k fs k') (h' : GetsSites k' gs k'') :
    GetsSites k (fs ++ gs) k'' where
  le := Nat.le_trans h.le h'.le
  within := by
    refine List.forall_mem_append.2 ⟨fun f hf => ?_, fun g hg => ?_⟩
    · exact ⟨(h.within f hf).1, Nat.lt_of_lt_of_le (h.within f hf).2 h'.le⟩
    · exact ⟨Nat.le_trans h.le (h'.within g hg).1, (h'.within g hg).2⟩
  nodup := by
    rw [List.map_append]
    refine h.nodup.append h'.nodup ?_
    rintro site hleft hright
    obtain ⟨f, hf, rfl⟩ := List.mem_map.1 hleft
    obtain ⟨g, hg, hsite⟩ := List.mem_map.1 hright
    have hbefore := (h.within f hf).2
    have hafter := (h'.within g hg).1
    rw [hsite] at hafter
    exact Nat.not_lt_of_le hafter hbefore

/-- A function gets the first free site, before those inside it. -/
theorem function (h : GetsSites (k + 1) fs k') (ps : List String) (body : Expr) :
    GetsSites k (⟨k, ps, body⟩ :: fs) k' := by
  have hfirst : GetsSites k [⟨k, ps, body⟩] (k + 1) :=
    ⟨Nat.le_succ k, List.forall_mem_singleton.2 ⟨Nat.le_refl k, Nat.lt_succ_self k⟩,
      List.nodup_singleton _⟩
  exact hfirst.append h

end GetsSites

mutual

theorem Expr.getsSites_number : ∀ (t : Expr) (k : Site),
    GetsSites k (t.number.run k).1.functions (t.number.run k).2
  | .literal _, _      => .nil
  | .ident _, _        => .nil
  | .print t, k        => t.getsSites_number k
  | .binary _ l r, k   => (l.getsSites_number k).append (r.getsSites_number _)
  | .ifElse c y n, k   =>
    ((c.getsSites_number k).append (y.getsSites_number _)).append (n.getsSites_number _)
  | .loop c b, k       => (c.getsSites_number k).append (b.getsSites_number _)
  | .seq a b, k        => (a.getsSites_number k).append (b.getsSites_number _)
  | .declare _ t, k    => t.getsSites_number k
  | .assign _ t, k     => t.getsSites_number k
  | .function _ ps b, k => (b.getsSites_number (k + 1)).function ps _
  | .call f args, k    => (f.getsSites_number k).append (getsSites_numberArgs args _)

theorem getsSites_numberArgs : ∀ (ts : List Expr) (k : Site),
    GetsSites k (functionsOfArgs ((numberArgs ts).run k).1) ((numberArgs ts).run k).2
  | [], _      => .nil
  | t :: ts, k => (t.getsSites_number k).append (getsSites_numberArgs ts _)

end

theorem GetsSites.distinctSites {k k' : Site} {programs : List Expr}
    (h : GetsSites k (functionsOfArgs programs) k') : DistinctSites programs :=
  fun _ hf _ hg => List.inj_on_of_nodup_map h.nodup hf hg

/-- Programs that a session takes in one after the other are numbered like the arguments of one
call. -/
theorem run_mapM_load (ts : List Expr) (s : Session.State) :
    (ts.mapM Session.load).run s = (((numberArgs ts).run s.nextSite).1,
      { s with nextSite := ((numberArgs ts).run s.nextSite).2 }) := by
  induction ts generalizing s with
  | nil => rfl
  | cons t ts ih =>
    rw [List.mapM_cons]
    show (let first := Session.load t s; let others := (ts.mapM Session.load).run first.2
      (first.1 :: others.1, others.2)) = _
    simp only [ih]
    rfl

theorem distinctSites_mapM_load (ts : List Expr) (s : Session.State) :
    DistinctSites ((ts.mapM Session.load).run s).1 := by
  rw [run_mapM_load]
  exact (getsSites_numberArgs ts s.nextSite).distinctSites

end Featherweight
