import Trampoline.Proofs.Sites

set_option autoImplicit false

namespace Trampoline

structure Mark where
  site : Site
  index : Nat

-- The function expressions that closures were made by and the marks of the frames of continuations,
-- both by stamps; the binders that scopes were made for; and the marks of the frames of each timer.
structure Origins where
  lambdas : Nat → Site
  konts : Nat → List Mark
  makers : ScopeId → Option Binder
  timers : List (List Mark)

namespace Origins

def made (o : Origins) (stamp : Nat) (site : Site) : Origins :=
  { o with lambdas := fun i => if i = stamp then site else o.lambdas i }

def captured (o : Origins) (stamp : Nat) (marks : List Mark) : Origins :=
  { o with konts := fun i => if i = stamp then marks else o.konts i }

def opened (o : Origins) (scope : ScopeId) (b : Binder) : Origins :=
  { o with makers := fun i => if i = scope then some b else o.makers i }

end Origins

structure Scene where
  root : ScopeId
  origins : Origins
  stamps : Nat
  store : Store

namespace Scene

def layout (sc : Scene) : Layout := ⟨sc.root, sc.origins.makers, sc.store⟩

structure Grows (a b : Scene) : Prop where
  stamps : a.stamps ≤ b.stamps
  lambdas : ∀ stamp, stamp < a.stamps → b.origins.lambdas stamp = a.origins.lambdas stamp
  konts : ∀ stamp, stamp < a.stamps → b.origins.konts stamp = a.origins.konts stamp
  layout : a.layout.Grows b.layout

variable {a b c : Scene}

theorem Grows.refl : a.Grows a := ⟨Nat.le_refl _, fun _ _ => rfl, fun _ _ => rfl, .refl⟩

theorem Grows.trans (first : a.Grows b) (second : b.Grows c) : a.Grows c where
  stamps := Nat.le_trans first.stamps second.stamps
  lambdas stamp below :=
    (second.lambdas stamp (Nat.lt_of_lt_of_le below first.stamps)).trans (first.lambdas stamp below)
  konts stamp below :=
    (second.konts stamp (Nat.lt_of_lt_of_le below first.stamps)).trans (first.konts stamp below)
  layout := first.layout.trans second.layout

def Sees (sc : Scene) (site : Site) (env : Env) : Prop := env.Fits sc.layout site.binders

structure Shows (sc : Scene) (site : Site) (e : Expr) (env : Env) : Prop where
  node : site.node? = some e
  sees : sc.Sees site env

theorem Sees.grows {site : Site} {env : Env} (sees : a.Sees site env) (grows : a.Grows b) :
    b.Sees site env :=
  Env.Fits.grows sees grows.layout

theorem Shows.grows {site : Site} {e : Expr} {env : Env} (stands : a.Shows site e env)
    (grows : a.Grows b) : b.Shows site e env :=
  ⟨stands.node, stands.sees.grows grows⟩

theorem Shows.part {site : Site} {e part : Expr} {env : Env} (whole : a.Shows site e env)
    (p : Part) (found : e.part? p = some part) (free : e.binders site p = []) :
    a.Shows (.part site p) part env := by
  refine ⟨(Site.node?_part whole.node p).trans found, ?_⟩
  rw [Sees, Site.binders_part whole.node, free]
  exact whole.sees

theorem Shows.init {site : Site} {bindings : List Binding} {body : Expr} {env : Env}
    (whole : a.Shows site (.letIn bindings body) env) : a.Sees (.part site (.init 0)) env := by
  rw [Sees, Site.binders_part whole.node]
  exact whole.sees

theorem Sees.body {site : Site} {bindings : List Binding} {body : Expr} {env : Env} {i : Nat}
    (node : site.node? = some (.letIn bindings body)) (left : bindings.drop i = [])
    (sees : a.Sees (.part site (.init i)) env) : a.Sees (.part site .body) env := by
  have all : bindings.take i = bindings := List.take_of_length_le (List.drop_eq_nil_iff.mp left)
  rw [Sees, Site.binders_part node, Expr.binders, all] at sees
  rw [Sees, Site.binders_part node]
  exact sees

end Scene

structure Closure.Placed (sc : Scene) (c : Closure) : Prop where
  stamp : c.stamp < sc.stamps
  node : (sc.origins.lambdas c.stamp).node? = some (.lambda c.params c.body c.name)
  env : c.env.Fits sc.layout
    (Binder.ofName (sc.origins.lambdas c.stamp) c.name ++ (sc.origins.lambdas c.stamp).binders)

theorem Closure.placed_at {sc : Scene} {c : Closure} {site : Site}
    (origin : sc.origins.lambdas c.stamp = site) (stamp : c.stamp < sc.stamps)
    (node : site.node? = some (.lambda c.params c.body c.name))
    (env : c.env.Fits sc.layout (Binder.ofName site c.name ++ site.binders)) : c.Placed sc := by
  subst origin
  exact ⟨stamp, node, env⟩

theorem Closure.Placed.grows {a b : Scene} {c : Closure} (placed : c.Placed a) (grows : a.Grows b) :
    c.Placed b where
  stamp := Nat.lt_of_lt_of_le placed.stamp grows.stamps
  node := (grows.lambdas c.stamp placed.stamp).symm ▸ placed.node
  env := by
    rw [grows.lambdas c.stamp placed.stamp]
    exact placed.env.grows grows.layout

mutual

def Value.Placed (sc : Scene) : Value → Prop
  | .closure c => c.Placed sc
  | .continuation stamp frames => stamp < sc.stamps ∧ framesAt sc frames (sc.origins.konts stamp)
  | _ => True

def Frame.At (sc : Scene) (mark : Mark) : Frame → Prop
  | .final _ => True
  | .assign _ name env => ∃ value, sc.Shows mark.site (.assign (.var name) value) env
  | .left _ op right env => ∃ left, sc.Shows mark.site (.binary op left right) env
  | .right _ _ left => left.Placed sc
  | .branch _ yes no env => ∃ test, sc.Shows mark.site (.cond test yes no) env
  | .item _ rest env =>
      ∃ body, sc.Shows mark.site (.prog body) env ∧ body.drop (mark.index + 1) = rest
  | .callee _ args env => ∃ func, sc.Shows mark.site (.call func args) env
  | .argument _ func done rest env =>
      (∃ callee args, sc.Shows mark.site (.call callee args) env ∧ args.drop (mark.index + 1) = rest) ∧
        func.Placed sc ∧ valuesPlaced sc done
  | .init _ name rest body env =>
      ∃ bindings init, mark.site.node? = some (.letIn bindings body) ∧
        bindings.drop mark.index = .mk name init :: rest ∧
          sc.Sees (.part mark.site (.init mark.index)) env
  | .timed _ _ => True

def framesAt (sc : Scene) : List Frame → List Mark → Prop
  | [], marks => marks = []
  | frame :: k, marks => ∃ mark rest, marks = mark :: rest ∧ frame.At sc mark ∧ framesAt sc k rest

def valuesPlaced (sc : Scene) : List Value → Prop
  | [] => True
  | v :: vs => v.Placed sc ∧ valuesPlaced sc vs

end

theorem valuesPlaced_iff (sc : Scene) (vs : List Value) :
    valuesPlaced sc vs ↔ ∀ v ∈ vs, v.Placed sc := by
  induction vs with
  | nil => simp [valuesPlaced]
  | cons v vs ih => simp [valuesPlaced, ih]

theorem firstArg_placed {sc : Scene} {args : List Value} (placed : valuesPlaced sc args) :
    (firstArg args).Placed sc :=
  firstArg_holds trivial args ((valuesPlaced_iff sc args).mp placed)

theorem framesAt_cons {sc : Scene} {frame : Frame} {k : Kont} {mark : Mark} {marks : List Mark}
    (top : frame.At sc mark) (rest : framesAt sc k marks) : framesAt sc (frame :: k) (mark :: marks) :=
  ⟨mark, marks, rfl, top, rest⟩

mutual

theorem Value.Placed.grows {a b : Scene} (grows : a.Grows b) (v : Value) (placed : v.Placed a) :
    v.Placed b := by
  cases v with
  | closure c => exact Closure.Placed.grows placed grows
  | continuation stamp frames =>
      obtain ⟨below, inner⟩ := placed
      refine ⟨Nat.lt_of_lt_of_le below grows.stamps, ?_⟩
      rw [grows.konts stamp below]
      exact framesAt.grows grows frames _ inner
  | _ => trivial

theorem Frame.At.grows {a b : Scene} (grows : a.Grows b) (frame : Frame) (mark : Mark)
    (top : frame.At a mark) : frame.At b mark := by
  cases frame with
  | final | timed => trivial
  | right m op left => exact Value.Placed.grows grows left top
  | item m rest env => exact top.imp fun _ here => ⟨here.1.grows grows, here.2⟩
  | argument m func done rest env =>
      obtain ⟨⟨callee, args, here, left⟩, function, values⟩ := top
      exact ⟨⟨callee, args, here.grows grows, left⟩, Value.Placed.grows grows func function,
        valuesPlaced.grows grows done values⟩
  | init m name rest body env =>
      obtain ⟨bindings, init, node, left, sees⟩ := top
      exact ⟨bindings, init, node, left, sees.grows grows⟩
  | assign | left | branch | callee => exact top.imp fun _ here => here.grows grows

theorem framesAt.grows {a b : Scene} (grows : a.Grows b) (k : List Frame) (marks : List Mark)
    (frames : framesAt a k marks) : framesAt b k marks := by
  cases k with
  | nil => exact frames
  | cons frame k =>
      obtain ⟨mark, rest, rfl, top, others⟩ := frames
      exact framesAt_cons (Frame.At.grows grows frame mark top) (framesAt.grows grows k rest others)

theorem valuesPlaced.grows {a b : Scene} (grows : a.Grows b) (vs : List Value)
    (placed : valuesPlaced a vs) : valuesPlaced b vs := by
  cases vs with
  | nil => trivial
  | cons v vs => exact ⟨Value.Placed.grows grows v placed.1, valuesPlaced.grows grows vs placed.2⟩

end

def World.scene (w : World) (root : ScopeId) (o : Origins) : Scene := ⟨root, o, w.stamps, w.store⟩

-- All that a world holds has its origin in the text.
structure World.Placed (root : ScopeId) (o : Origins) (w : World) : Prop where
  inside : root < w.store.scopes.size
  store : w.store.Holds (Value.Placed (w.scene root o))
  timers : List.Forall₂ (fun t marks =>
    framesAt (w.scene root o) t.kont marks ∧ t.value.Placed (w.scene root o)) w.timers o.timers

structure World.Evolves (root : ScopeId) (o : Origins) (w : World) (o' : Origins) (w' : World) :
    Prop where
  grows : (w.scene root o).Grows (w'.scene root o')
  placed : w'.Placed root o'

namespace World

variable {root : ScopeId} {o o' : Origins} {w w' : World}

theorem Placed.evolves (placed : w.Placed root o) : w.Evolves root o o w := ⟨.refl, placed⟩

theorem Placed.congr (placed : w.Placed root o) (store : w'.store = w.store)
    (stamps : w'.stamps = w.stamps) (timers : w'.timers = w.timers) : w'.Placed root o := by
  have scene : w'.scene root o = w.scene root o := by rw [World.scene, World.scene, store, stamps]
  exact ⟨store ▸ placed.inside, by rw [scene, store]; exact placed.store,
    by rw [scene, timers]; exact placed.timers⟩

theorem Placed.evolves_congr (placed : w.Placed root o) (store : w'.store = w.store)
    (stamps : w'.stamps = w.stamps) (timers : w'.timers = w.timers) : w.Evolves root o o w' := by
  refine ⟨?_, placed.congr store stamps timers⟩
  rw [World.scene, World.scene, store, stamps]
  exact .refl

theorem Placed.store_grows (placed : w.Placed root o) {sc : Scene} (grows : (w.scene root o).Grows sc) :
    w.store.Holds (Value.Placed sc) :=
  fun name i v found => Value.Placed.grows grows v (placed.store name i v found)

theorem Placed.timers_grow (placed : w.Placed root o) {sc : Scene} (grows : (w.scene root o).Grows sc) :
    List.Forall₂ (fun t marks => framesAt sc t.kont marks ∧ t.value.Placed sc) w.timers o.timers :=
  placed.timers.imp fun _ _ waits =>
    ⟨framesAt.grows grows _ _ waits.1, Value.Placed.grows grows _ waits.2⟩

theorem Placed.grow (placed : w.Placed root o) (grows : (w.scene root o).Grows (w'.scene root o'))
    (store : w.store.Holds (Value.Placed (w'.scene root o')) →
      w'.store.Holds (Value.Placed (w'.scene root o')))
    (timers : w'.timers = w.timers) (same : o'.timers = o.timers) : w.Evolves root o o' w' := by
  refine ⟨grows, Nat.lt_of_lt_of_le placed.inside grows.layout.size, store (placed.store_grows grows), ?_⟩
  rw [timers, same]
  exact placed.timers_grow grows

theorem grows_timers (root : ScopeId) (o : Origins) (timers : List (List Mark))
    (store : w'.store = w.store) (stamps : w'.stamps = w.stamps) :
    (w.scene root o).Grows (w'.scene root { o with timers := timers }) := by
  rw [World.scene, World.scene, store, stamps]
  exact ⟨Nat.le_refl _, fun _ _ => rfl, fun _ _ => rfl, .refl⟩

theorem evolves_setVar (placed : w.Placed root o) {site : Site} {env : Env}
    (sees : (w.scene root o).Sees site env) {name : String} {i : ScopeId} {v : Value}
    (target : w.store.target? env name = some i) (value : v.Placed (w.scene root o)) :
    w.Evolves root o o (w.setVar i name v) := by
  have grows : (w.scene root o).Grows ((w.setVar i name v).scene root o) :=
    ⟨Nat.le_refl _, fun _ _ => rfl, fun _ _ => rfl, Layout.grows_setIn (sees.target?_known target) v⟩
  exact placed.grow grows
    (fun holds => Store.holds_setIn holds i name v (Value.Placed.grows grows v value)) rfl rfl

theorem evolves_extend (placed : w.Placed root o) (env : Env) (b : Binder)
    (bindings : List (String × Value))
    (values : ∀ entry ∈ bindings, entry.2.Placed (w.scene root o)) :
    w.Evolves root o (o.opened w.store.scopes.size b)
      { w with store := (w.store.extend env bindings).2 } := by
  have grows : (w.scene root o).Grows
      (World.scene { w with store := (w.store.extend env bindings).2 } root
        (o.opened w.store.scopes.size b)) :=
    ⟨Nat.le_refl _, fun _ _ => rfl, fun _ _ => rfl, Layout.grows_opened b bindings⟩
  refine placed.grow grows (fun holds => Store.holds_push holds bindings none ?_) rfl rfl
  intro entry member
  exact Value.Placed.grows grows entry.2 (values entry member)

def entering (w : World) (o : Origins) (c : Closure) : Origins :=
  o.opened w.store.scopes.size ⟨o.lambdas c.stamp, .params, c.params⟩

theorem evolves_bindParams (placed : w.Placed root o) {c : Closure} {args : List Value}
    (closure : c.Placed (w.scene root o)) (values : valuesPlaced (w.scene root o) args) :
    w.Evolves root o (w.entering o c) (w.bindParams c args).2 ∧
      ((w.bindParams c args).2.scene root (w.entering o c)).Shows (.part (o.lambdas c.stamp) .body)
        c.body (w.bindParams c args).1 := by
  have node : (o.lambdas c.stamp).node? = some (.lambda c.params c.body c.name) := closure.node
  refine ⟨evolves_extend placed c.env _ _
    (bindArgs_holds trivial c.params args ((valuesPlaced_iff _ args).mp values)), ?_, ?_⟩
  · exact Site.node?_part node .body
  · have fits := closure.env.child placed.inside ⟨o.lambdas c.stamp, .params, c.params⟩
      (bindArgs c.params args) (bindArgs_names c.params args)
    rw [Scene.Sees, Site.binders_part node .body]
    exact fits

def binding (w : World) (o : Origins) (mark : Mark) (name : String) : Origins :=
  o.opened w.store.scopes.size ⟨mark.site, .binding mark.index, [name]⟩

theorem evolves_bind (placed : w.Placed root o) (mark : Mark) {bindings rest : List Binding}
    {body init : Expr} {env : Env} {name : String} {v : Value}
    (node : mark.site.node? = some (.letIn bindings body))
    (left : bindings.drop mark.index = .mk name init :: rest)
    (sees : (w.scene root o).Sees (.part mark.site (.init mark.index)) env)
    (value : v.Placed (w.scene root o)) :
    w.Evolves root o (w.binding o mark name) (w.bind env name v).2 ∧
      ((w.bind env name v).2.scene root (w.binding o mark name)).Sees
        (.part mark.site (.init (mark.index + 1))) (w.bind env name v).1 := by
  refine ⟨evolves_extend placed env _ _ (List.forall_mem_singleton.mpr value), ?_⟩
  have fits := Env.Fits.child sees placed.inside ⟨mark.site, .binding mark.index, [name]⟩
    [(name, v)] rfl
  rw [Scene.Sees, Site.binders_init node left]
  exact fits

def making (w : World) (o : Origins) (site : Site) (name : Option String) : Origins :=
  match Binder.ofName site name with
  | [] => o.made w.stamps site
  | b :: _ => (o.made w.stamps site).opened w.store.scopes.size b

theorem grows_made (w : World) (root : ScopeId) (o : Origins) (site : Site) :
    (w.scene root o).Grows (w.fresh.2.scene root (o.made w.stamps site)) :=
  ⟨Nat.le_succ _, fun _ below => if_neg (Nat.ne_of_lt below), fun _ _ => rfl, .refl⟩

theorem evolves_makeClosure (placed : w.Placed root o) {site : Site} {params : List String}
    {body : Expr} {name : Option String} {env : Env}
    (here : (w.scene root o).Shows site (.lambda params body name) env) :
    w.Evolves root o (w.making o site name) (w.makeClosure params body name env).2 ∧
      (w.makeClosure params body name env).1.Placed
        ((w.makeClosure params body name env).2.scene root (w.making o site name)) := by
  have grows := grows_made w root o site
  have origin : (o.made w.stamps site).lambdas w.stamps = site := if_pos rfl
  have sees := here.sees.grows grows
  by_cases anonymous : (name.getD "").isEmpty
  · have none : Binder.ofName site name = [] := if_pos anonymous
    simp only [making, none, makeClosure, if_pos anonymous]
    refine ⟨placed.grow grows id rfl rfl, Closure.placed_at origin (Nat.lt_succ_self _) here.node ?_⟩
    rw [none]
    exact sees
  · -- The new scope holds the closure itself, so the closure is placed in the final scene first.
    have self : Binder.ofName site name = [⟨site, .self, [name.getD ""]⟩] := if_neg anonymous
    simp only [making, self, makeClosure, if_neg anonymous]
    have closure (v : Value) : Closure.Placed
        (World.scene { w.fresh.2 with store := (w.store.extend env [(name.getD "", v)]).2 } root
          ((o.made w.stamps site).opened w.store.scopes.size ⟨site, .self, [name.getD ""]⟩))
        ⟨w.stamps, params, body, name, w.store.child env⟩ := by
      refine Closure.placed_at origin (Nat.lt_succ_self _) here.node ?_
      rw [self]
      exact Env.Fits.child sees placed.inside _ [(name.getD "", v)] rfl
    refine ⟨placed.grow (grows.trans ?_)
      (fun holds => Store.holds_push holds _ none (List.forall_mem_singleton.mpr (closure _))) rfl rfl,
      closure _⟩
    exact ⟨Nat.le_refl _, fun _ _ => rfl, fun _ _ => rfl, Layout.grows_opened _ _⟩

theorem evolves_captured (placed : w.Placed root o) {k : Kont} {marks : List Mark}
    (frames : framesAt (w.scene root o) k marks) :
    w.Evolves root o (o.captured w.stamps marks) w.fresh.2 ∧
      (Value.continuation w.stamps k).Placed (w.fresh.2.scene root (o.captured w.stamps marks)) := by
  have grows : (w.scene root o).Grows (w.fresh.2.scene root (o.captured w.stamps marks)) :=
    ⟨Nat.le_succ _, fun _ _ => rfl, fun _ below => if_neg (Nat.ne_of_lt below), .refl⟩
  refine ⟨placed.grow grows id rfl rfl, Nat.lt_succ_self _, ?_⟩
  have origin : (o.captured w.stamps marks).konts w.stamps = marks := if_pos rfl
  rw [World.scene, origin]
  exact framesAt.grows grows k marks frames

theorem evolves_timer (placed : w.Placed root o) {t : Timer} {marks : List Mark}
    (frames : framesAt (w.scene root o) t.kont marks) (value : t.value.Placed (w.scene root o))
    (store : w'.store = w.store) (stamps : w'.stamps = w.stamps) (timers : w'.timers = w.timers ++ [t]) :
    w.Evolves root o { o with timers := o.timers ++ [marks] } w' := by
  have grows := grows_timers root o (o.timers ++ [marks]) store stamps
  refine ⟨grows, store ▸ placed.inside, ?_, ?_⟩
  · rw [store]
    exact placed.store_grows grows
  · rw [timers]
    exact List.rel_append (placed.timers_grow grows)
      (.cons ⟨framesAt.grows grows _ _ frames, Value.Placed.grows grows _ value⟩ .nil)

end World

inductive Moment where
  | evaluates (e : Expr)
  | writes (name : String)

def Moment.Of : Moment → Expr → Prop
  | .evaluates e, node => node = e
  | .writes name, node => ∃ value, node = .assign (.var name) value

structure Visit where
  moment : Moment
  site : Site
  env : Env
  layout : Layout

namespace Visit

structure Lexical (root : ScopeId) (v : Visit) : Prop where
  root : v.layout.root = root
  node : ∃ e, v.site.node? = some e ∧ v.moment.Of e
  scope : v.env.Lexical v.layout v.site.binders

structure Undefined (x : String) (v : Visit) : Prop where
  free : ∀ b ∈ v.site.binders, x ∉ b.names
  absent : v.layout.store.valueIn? x v.layout.root = none
  access : v.moment = .evaluates (.var x) ∨ v.moment = .writes x ∧ v.env.isRoot = false

end Visit

namespace Scene

variable {sc : Scene} {site : Site} {env : Env}

def visit (sc : Scene) (moment : Moment) (site : Site) (env : Env) : Visit :=
  ⟨moment, site, env, sc.layout⟩

theorem visit_lexical {e : Expr} (stands : sc.Shows site e env) {moment : Moment} (of : moment.Of e) :
    (sc.visit moment site env).Lexical sc.root :=
  ⟨rfl, ⟨e, stands.node, of⟩, Env.Fits.lexical stands.sees⟩

theorem read_undefined {name : String} (sees : sc.Sees site env) (missing : sc.store.get? env name = none) :
    (sc.visit (.evaluates (.var name)) site env).Undefined name := by
  obtain ⟨free, absent⟩ := Env.Fits.read_missing sees missing
  exact ⟨free, absent, .inl rfl⟩

theorem write_undefined {name : String} (sees : sc.Sees site env)
    (missing : sc.store.target? env name = none) :
    (sc.visit (.writes name) site env).Undefined name := by
  obtain ⟨free, absent, inner⟩ := Env.Fits.target_missing sees missing
  exact ⟨free, absent, .inr ⟨rfl, inner⟩⟩

end Scene

end Trampoline
