import Featherweight.Proofs.Evaluation.ClosureKeys

/-!
# Renaming

A renaming gives every identifier another one, and no two the same. Applied to a tree it changes
the variables, declarations, assignments and parameters everywhere (`Expr.rename`). The names that
scopes bind are changed along with it: identifiers as such, and the texts that closures are recorded
under through their parameters (`Renaming.Key`). The text of a closure tells its parameters, and is
no identifier, so no two keys become the same (`Renaming.biUnique_key`).
-/

namespace Featherweight

/-- A map of names that takes identifiers to identifiers, and no two to the same. -/
structure Renaming where
  name : String → String
  isIdentifier_name : ∀ {x : String}, isIdentifier x = true → isIdentifier (name x) = true
  injOn : ∀ {x y : String}, isIdentifier x = true → isIdentifier y = true → name x = name y → x = y

variable (r : Renaming)

/-! ### Trees and values -/

mutual

/-- The tree with every name in it changed. -/
def Expr.rename : Expr → Expr
  | .literal v            => .literal v.rename
  | .ident x              => .ident (r.name x)
  | .print t              => .print t.rename
  | .binary op a b        => .binary op a.rename b.rename
  | .ifElse c yes no      => .ifElse c.rename yes.rename no.rename
  | .loop c body          => .loop c.rename body.rename
  | .seq a b              => .seq a.rename b.rename
  | .declare x t          => .declare (r.name x) t.rename
  | .assign x t           => .assign (r.name x) t.rename
  | .function site ps body => .function site (ps.map r.name) body.rename
  | .call f args          => .call f.rename (renameArgs args)

/-- The arguments with every name in them changed. -/
def renameArgs : List Expr → List Expr
  | []        => []
  | t :: args => t.rename :: renameArgs args

/-- The value with every name in it changed. -/
def Value.rename : Value → Value
  | .int n     => .int n
  | .bool b    => .bool b
  | .null      => .null
  | .closure c => .closure c.rename

/-- The closure with its parameters and every name in its body changed. -/
def Closure.rename : Closure → Closure
  | ⟨site, ps, body, scope⟩ => ⟨site, ps.map r.name, body.rename, scope⟩

end

/-- The halt with the name changed that is declared twice. -/
def Halt.rename : Halt → Halt
  | .failure (.duplicateDeclaration x) => .failure (.duplicateDeclaration (r.name x))
  | h                                  => h

/-! ### Correspondence -/

variable {r}

/-- Is the first name an identifier, and the second what it is renamed to? -/
def Renaming.Name (r : Renaming) (x x' : String) : Prop := isIdentifier x = true ∧ x' = r.name x

theorem forall₂_name_iff {ps ps' : List String} :
    List.Forall₂ r.Name ps ps' ↔ (∀ p ∈ ps, isIdentifier p = true) ∧ ps' = ps.map r.name := by
  constructor
  · intro h
    induction h with
    | nil => exact ⟨nofun, rfl⟩
    | cons hx _ ih => exact ⟨List.forall_mem_cons.2 ⟨hx.1, ih.1⟩, by rw [hx.2, ih.2, List.map_cons]⟩
  · rintro ⟨hps, rfl⟩
    exact List.forall₂_map_right_iff.2 (List.forall₂_same.2 fun p hp => ⟨hps p hp, rfl⟩)

theorem leftUnique_name : Relator.LeftUnique r.Name :=
  fun _ _ _ hx hy => r.injOn hx.1 hy.1 (hx.2.symm.trans hy.2)

mutual

theorem Expr.corresponds_rename : ∀ {t : Expr}, (∀ x ∈ t.names, isIdentifier x = true) →
    t.Corresponds r.Name AnyScope (t.rename r)
  | .literal _, h => .literal (Value.corresponds_rename h)
  | .ident _, h => .ident ⟨h _ List.mem_cons_self, rfl⟩
  | .print _, h => .print (Expr.corresponds_rename h)
  | .binary _ _ _, h => by
    simp only [Expr.names, List.forall_mem_append] at h
    exact .binary (Expr.corresponds_rename h.1) (Expr.corresponds_rename h.2)
  | .ifElse _ _ _, h => by
    simp only [Expr.names, List.forall_mem_append] at h
    exact .ifElse (Expr.corresponds_rename h.1.1) (Expr.corresponds_rename h.1.2)
      (Expr.corresponds_rename h.2)
  | .loop _ _, h => by
    simp only [Expr.names, List.forall_mem_append] at h
    exact .loop (Expr.corresponds_rename h.1) (Expr.corresponds_rename h.2)
  | .seq _ _, h => by
    simp only [Expr.names, List.forall_mem_append] at h
    exact .seq (Expr.corresponds_rename h.1) (Expr.corresponds_rename h.2)
  | .declare _ _, h => by
    obtain ⟨hx, ht⟩ := List.forall_mem_cons.1 h
    exact .declare ⟨hx, rfl⟩ (Expr.corresponds_rename ht)
  | .assign _ _, h => by
    obtain ⟨hx, ht⟩ := List.forall_mem_cons.1 h
    exact .assign ⟨hx, rfl⟩ (Expr.corresponds_rename ht)
  | .function _ _ _, h => by
    simp only [Expr.names, List.forall_mem_append] at h
    exact .function (forall₂_name_iff.2 ⟨h.1, rfl⟩) (Expr.corresponds_rename h.2)
  | .call _ _, h => by
    simp only [Expr.names, List.forall_mem_append] at h
    exact .call (Expr.corresponds_rename h.1) (argsCorrespond_rename h.2)

theorem argsCorrespond_rename : ∀ {args : List Expr},
    (∀ x ∈ namesOfArgs args, isIdentifier x = true) →
    List.Forall₂ (Expr.Corresponds r.Name AnyScope) args (renameArgs r args)
  | [], _ => .nil
  | _ :: _, h => by
    simp only [namesOfArgs, List.forall_mem_append] at h
    exact .cons (Expr.corresponds_rename h.1) (argsCorrespond_rename h.2)

theorem Value.corresponds_rename : ∀ {v : Value}, (∀ x ∈ v.names, isIdentifier x = true) →
    v.Corresponds r.Name AnyScope (v.rename r)
  | .int n, _ => .int n
  | .bool b, _ => .bool b
  | .null, _ => .null
  | .closure _, h => .closure (Closure.corresponds_rename h)

theorem Closure.corresponds_rename : ∀ {c : Closure}, (∀ x ∈ c.names, isIdentifier x = true) →
    c.Corresponds r.Name AnyScope (c.rename r)
  | ⟨_, _, _, _⟩, h => by
    simp only [Closure.names, List.forall_mem_append] at h
    exact .mk (forall₂_name_iff.2 ⟨h.1, rfl⟩) (Expr.corresponds_rename h.2) trivial

end

mutual

theorem Expr.Corresponds.eq_rename {S : ScopeId → Prop} : ∀ {t t' : Expr},
    t.Corresponds r.Name S t' → t' = t.rename r
  | .literal _, _, .literal hv         => by rw [hv.eq_rename, Expr.rename]
  | .ident _, _, .ident hx             => by rw [hx.2, Expr.rename]
  | .print _, _, .print ht             => by rw [ht.eq_rename, Expr.rename]
  | .binary _ _ _, _, .binary hl hr    => by rw [hl.eq_rename, hr.eq_rename, Expr.rename]
  | .ifElse _ _ _, _, .ifElse hc hy hn => by
    rw [hc.eq_rename, hy.eq_rename, hn.eq_rename, Expr.rename]
  | .loop _ _, _, .loop hc hb          => by rw [hc.eq_rename, hb.eq_rename, Expr.rename]
  | .seq _ _, _, .seq ha hb            => by rw [ha.eq_rename, hb.eq_rename, Expr.rename]
  | .declare _ _, _, .declare hx ht    => by rw [hx.2, ht.eq_rename, Expr.rename]
  | .assign _ _, _, .assign hx ht      => by rw [hx.2, ht.eq_rename, Expr.rename]
  | .function _ _ _, _, .function hps hb => by
    rw [(forall₂_name_iff.1 hps).2, hb.eq_rename, Expr.rename]
  | .call _ _, _, .call hf hargs       => by
    rw [hf.eq_rename, eq_renameArgs hargs, Expr.rename]

theorem eq_renameArgs {S : ScopeId → Prop} : ∀ {args args' : List Expr},
    List.Forall₂ (Expr.Corresponds r.Name S) args args' → args' = renameArgs r args
  | [], _, .nil           => rfl
  | _ :: _, _, .cons h hs => by rw [h.eq_rename, eq_renameArgs hs, renameArgs]

theorem Value.Corresponds.eq_rename {S : ScopeId → Prop} : ∀ {v v' : Value},
    v.Corresponds r.Name S v' → v' = v.rename r
  | .int _, _, .int _          => rfl
  | .bool _, _, .bool _        => rfl
  | .null, _, .null            => rfl
  | .closure _, _, .closure hc => by rw [hc.eq_rename, Value.rename]

theorem Closure.Corresponds.eq_rename {S : ScopeId → Prop} : ∀ {c c' : Closure},
    c.Corresponds r.Name S c' → c' = c.rename r
  | ⟨_, _, _, _⟩, _, .mk hps hb _ => by
    rw [(forall₂_name_iff.1 hps).2, hb.eq_rename, Closure.rename]

end

theorem Closure.Corresponds.isIdentifier_params {S : ScopeId → Prop} {c c' : Closure}
    (h : c.Corresponds r.Name S c') : ∀ p ∈ c.params, isIdentifier p = true := by
  obtain ⟨hps, _, _⟩ := h
  exact (forall₂_name_iff.1 hps).1

theorem Halt.Corresponds.eq_rename {h h' : Halt} (hh : h.Corresponds r.Name h') :
    h' = h.rename r := by
  cases hh with
  | duplicate hx => rw [hx.2, Halt.rename]
  | same hne =>
    unfold Halt.rename
    split
    · next x => exact absurd rfl (hne x)
    · rfl

/-! ### Keys -/

theorem Closure.params_rename (c : Closure) : (c.rename r).params = c.params.map r.name := by
  cases c
  rfl

/-- Identifiers with commas between any two can be told from the text. -/
theorem splitOn_intercalate_comma {xs : List String} (hxs : ∀ x ∈ xs, isIdentifier x = true)
    (hne : xs ≠ []) : (",".intercalate xs).toList.splitOn ',' = xs.map String.toList := by
  rw [String.toList_intercalate]
  refine List.splitOn_intercalate ',' (fun l hl hmem => ?_) (by simpa using hne)
  obtain ⟨x, hx, rfl⟩ := List.mem_map.1 hl
  exact absurd (isWordChar_of_isIdentifier (hxs x hx) ',' hmem) (by decide)

theorem intercalate_comma_ne {x : String} {xs : List String}
    (hx : isIdentifier x = true) : ",".intercalate (x :: xs) ≠ "" := by
  intro h
  have hnil : x.toList = [] := by
    cases xs with
    | nil => simpa using h
    | cons y ys => simp at h
  rw [isIdentifier, hnil] at hx
  cases hx

/-- Closures with the same text have the same parameters, if these are identifiers. -/
theorem Closure.params_eq_of_render {c d : Closure} (hc : ∀ p ∈ c.params, isIdentifier p = true)
    (hd : ∀ p ∈ d.params, isIdentifier p = true) (h : c.render = d.render) :
    c.params = d.params := by
  unfold Closure.render at h
  rw [String.append_left_inj, String.append_right_inj] at h
  -- A list of no names is written like one of an empty name, which is no identifier.
  cases hps : c.params with
  | nil =>
    cases hqs : d.params with
    | nil => rfl
    | cons q qs =>
      rw [hps, hqs] at h
      exact absurd h.symm (intercalate_comma_ne (hd q (hqs ▸ List.mem_cons_self)))
  | cons p ps =>
    cases hqs : d.params with
    | nil =>
      rw [hps, hqs] at h
      exact absurd h (intercalate_comma_ne (hc p (hps ▸ List.mem_cons_self)))
    | cons q qs =>
      have hsplit := splitOn_intercalate_comma hc (by simp [hps])
      rw [h, splitOn_intercalate_comma hd (by simp [hqs]), hps, hqs] at hsplit
      exact (List.map_inj_right fun _ _ => String.toList_injective).1 hsplit.symm

/-- Is the first name an identifier or the text of a closure, and the second what it becomes? -/
inductive Renaming.Key (r : Renaming) : String → String → Prop
  | name {x : String} (hx : isIdentifier x = true) : Key r x (r.name x)
  | closure {c : Closure} (hc : ∀ p ∈ c.params, isIdentifier p = true) :
      Key r c.render (c.rename r).render

/-- The parameters that a closure has after renaming are identifiers too. -/
theorem Closure.isIdentifier_params_rename {c : Closure}
    (hc : ∀ p ∈ c.params, isIdentifier p = true) :
    ∀ p ∈ (c.rename r).params, isIdentifier p = true := by
  rw [Closure.params_rename, List.forall_mem_map]
  exact fun p hp => r.isIdentifier_name (hc p hp)

/-- Keys are paired one to one. -/
theorem Renaming.biUnique_key : Relator.BiUnique r.Key := by
  constructor
  · intro x y z hx hy
    generalize hz : z = z' at hy
    cases hx with
    | name hx =>
      cases hy with
      | name hy => exact r.injOn hx hy hz
      | @closure d hd => exact absurd ⟨_, hz⟩ (not_isClosureKey (r.isIdentifier_name hx))
    | @closure c hc =>
      cases hy with
      | name hy => exact absurd ⟨_, hz.symm⟩ (not_isClosureKey (r.isIdentifier_name hy))
      | @closure d hd =>
        have hparams := Closure.params_eq_of_render (Closure.isIdentifier_params_rename hc)
          (Closure.isIdentifier_params_rename hd) hz
        rw [Closure.params_rename, Closure.params_rename] at hparams
        apply Closure.render_congr
        exact leftUnique_name.forall₂ (forall₂_name_iff.2 ⟨hc, rfl⟩)
          (forall₂_name_iff.2 ⟨hd, hparams⟩)
  · intro x y z hy hz
    generalize hx : x = x' at hz
    cases hy with
    | name hy =>
      cases hz with
      | name hz => rw [hx]
      | @closure d hd => exact absurd ⟨_, hx⟩ (not_isClosureKey hy)
    | @closure c hc =>
      cases hz with
      | name hz => exact absurd ⟨_, hx.symm⟩ (not_isClosureKey hz)
      | @closure d hd =>
        have hparams := Closure.params_eq_of_render hc hd hx
        refine Closure.render_congr ?_
        rw [Closure.params_rename, Closure.params_rename, hparams]

end Featherweight
