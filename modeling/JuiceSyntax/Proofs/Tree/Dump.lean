/-
  The program that a dump is of. The S-expressions of imports, types, implementations and items are read
  back as those of expressions are, and what an item is follows from its first word.

  `Program.erased_eq_of_dump`: of two lawful programs with one dump everything is the same that a dump does
  not leave out, if floats are finite and differ in their texts.
-/
import JuiceSyntax.Proofs.Tree.Plainness
import JuiceSyntax.Proofs.Tree.Readback

namespace JuiceSyntax

open Sexpr (word quote node tagged labelled typed)

/-! ## Imports -/

/-- The text of a word. -/
def wordOf : Sexpr → String
  | word text => text
  | _ => ""

def exposedOf (item : Sexpr) : Exposed := ⟨(unbanged (wordOf item)).1, (unbanged (wordOf item)).2, .point 0⟩

def importOf (foreign relative : Bool) : List Sexpr → Import
  | word text :: rest => if text = "foreign" then importOf true relative rest else importOf foreign true rest
  | [node (word "path" :: path)] => ⟨foreign, relative, path.map wordOf, none, []⟩
  | [node (word "path" :: path), node [word "as", word name]] => ⟨foreign, relative, path.map wordOf, some name, []⟩
  | [node (word "path" :: path), node (word "expose" :: names)] =>
    ⟨foreign, relative, path.map wordOf, none, names.map exposedOf⟩
  | [node (word "path" :: path), node [word "as", word name], node (word "expose" :: names)] =>
    ⟨foreign, relative, path.map wordOf, some name, names.map exposedOf⟩
  | _ => default

theorem exposedOf_sexpr {name : Exposed} (h : WordText name.name) : exposedOf name.sexpr = name.erased := by
  rw [Exposed.sexpr, exposedOf, wordOf, unbanged_ite h, Exposed.erased]

theorem importOf_head (foreign relative : Bool) (path : List String) (rest : List Sexpr) :
    importOf false false ((if foreign then [word "foreign"] else []) ++ (if relative then [word "relative"] else []) ++
      tagged "path" (path.map word) :: rest) = importOf foreign relative (tagged "path" (path.map word) :: rest) := by
  have hrelative (foreign : Bool) : importOf foreign false ((if relative then [word "relative"] else []) ++
      tagged "path" (path.map word) :: rest) = importOf foreign relative (tagged "path" (path.map word) :: rest) := by
    cases relative with
    | false => rfl
    | true =>
      rw [if_pos rfl, List.singleton_append, importOf, if_neg (by decide)]
  cases foreign with
  | false => exact hrelative false
  | true =>
    rw [if_pos rfl, List.append_assoc, List.singleton_append, importOf, if_pos rfl]
    exact hrelative true

theorem Import.read (decl : Import) (h : Lawful decl.nodes) :
    ∃ items, decl.sexpr = node (word "import" :: items) ∧ importOf false false items = decl.erased := by
  obtain ⟨foreign, relative, path, renamed, exposed⟩ := decl
  have hpath : (path.map word).map wordOf = path := by
    rw [List.map_map]
    exact List.map_id path
  have hexposed : (exposed.map Exposed.sexpr).map exposedOf = exposed.map Exposed.erased := by
    rw [List.map_map]
    exact List.map_congr_left fun name hmem => exposedOf_sexpr (h.right (.word name.name) (List.mem_map.2 ⟨name, hmem, rfl⟩))
  refine ⟨_, rfl, ?_⟩
  dsimp only
  rw [List.append_assoc, List.append_assoc, List.singleton_append, importOf_head]
  cases renamed with
  | none =>
    cases exposed with
    | nil =>
      show importOf foreign relative [node (word "path" :: path.map word)] = _
      rw [importOf, hpath]
      rfl
    | cons name names =>
      show importOf foreign relative [node (word "path" :: path.map word),
        node (word "expose" :: (name :: names).map Exposed.sexpr)] = _
      rw [importOf, hpath, hexposed]
      rfl
  | some text =>
    cases exposed with
    | nil =>
      show importOf foreign relative [node (word "path" :: path.map word), node [word "as", word text]] = _
      rw [importOf, hpath]
      rfl
    | cons name names =>
      show importOf foreign relative [node (word "path" :: path.map word), node [word "as", word text],
        node (word "expose" :: (name :: names).map Exposed.sexpr)] = _
      rw [importOf, hpath, hexposed]
      rfl

/-! ## Types -/

section

variable (float : String → Float)

def fieldOf : Sexpr → Field
  | node [_, word name, type] => ⟨name, ⟨typeOf float type, .point 0⟩, .point 0⟩
  | _ => ⟨"", ⟨.tuple [], .point 0⟩, .point 0⟩

def constructorOf : Sexpr → Constructor
  | node (word name :: params) => ⟨name, paramsOf float params, .point 0⟩
  | _ => ⟨"", [], .point 0⟩

def typeBodyOf : Sexpr → TypeBody
  | node (word "fields" :: fs) => .fields (fs.map (fieldOf float))
  | node (word "ctors" :: cs) => .constructors (cs.map (constructorOf float))
  | type => .synonym ⟨typeOf float type, .point 0⟩

def typeDeclOf : List Sexpr → TypeDecl
  | [word name, node (word "params" :: params), body] =>
    ⟨false, name, .point 0, paramsOf float params, typeBodyOf float body⟩
  | [word name, body] => ⟨false, name, .point 0, [], typeBodyOf float body⟩
  | _ => ⟨false, "", .point 0, [], .fields []⟩

/-! ## Items -/

def fnDeclOf : Sexpr → FnDecl
  | node (_ :: items) => fnOf float false none items
  | _ => fnOf float false none []

def implOf : List Sexpr → Impl
  | traitType :: node [word "for", selfType] :: fns =>
    ⟨some ⟨typeOf float traitType, .point 0⟩, ⟨typeOf float selfType, .point 0⟩, fns.map (fnDeclOf float)⟩
  | selfType :: fns => ⟨none, ⟨typeOf float selfType, .point 0⟩, fns.map (fnDeclOf float)⟩
  | [] => ⟨none, ⟨.tuple [], .point 0⟩, []⟩

def itemKindOf : Sexpr → ItemKind
  | node (word tag :: items) =>
    match tag, items with
    | "import", items => .imports (importOf false false items)
    | "fn", items => .fn (fnOf float false none items)
    | "type", items => .type (typeDeclOf float items)
    | ":", [word name, type, value] =>
      .binding name (.point 0) (some ⟨typeOf float type, .point 0⟩) ⟨exprOf float value, .point 0⟩
    | ":=", [word name, value] => .binding name (.point 0) none ⟨exprOf float value, .point 0⟩
    | "=", [word name, value] => .assignment name (.point 0) ⟨exprOf float value, .point 0⟩
    | "impl", items => .impl (implOf float items)
    | _, _ => .imports default
  | _ => .imports default

def itemOf : Sexpr → Item
  | node [word "export", kind] => ⟨itemKindOf float kind, true, .point 0⟩
  | kind => ⟨itemKindOf float kind, false, .point 0⟩

end

/-! ## Reading -/

section

variable {float : String → Float}

theorem TypeBody.read (body : TypeBody) (h : Readable float body.nodes) : typeBodyOf float body.sexpr = body.erased := by
  cases body with
  | synonym type =>
    rw [TypeBody.sexpr, typeBodyOf, type.read h, TypeBody.erased]
    · exact type.sexpr_ne (by decide)
    · exact type.sexpr_ne (by decide)
  | fields fs =>
    rw [TypeBody.sexpr, tagged, typeBodyOf, List.map_map, TypeBody.erased]
    refine congrArg TypeBody.fields (List.map_congr_left fun f hmem => ?_)
    have hfield : Readable float f.nodes := fun n hn => h n (List.mem_flatMap.2 ⟨f, hmem, hn⟩)
    show fieldOf float (node [word ":", word f.name, f.type.sexpr]) = _
    rw [fieldOf, f.type.read hfield.later, Field.erased]
  | constructors cs =>
    rw [TypeBody.sexpr, tagged, typeBodyOf, List.map_map, TypeBody.erased]
    refine congrArg TypeBody.constructors (List.map_congr_left fun c hmem => ?_)
    have hconstructor : Readable float c.nodes := fun n hn => h n (List.mem_flatMap.2 ⟨c, hmem, hn⟩)
    show constructorOf float (node (word c.name :: paramSexprs c.params)) = _
    rw [constructorOf, readParams c.params hconstructor.later, Constructor.erased]

theorem TypeDecl.read (decl : TypeDecl) (h : Readable float decl.nodes) :
    ∃ items, decl.sexpr = node (word "type" :: items) ∧ typeDeclOf float items = decl.erased := by
  obtain ⟨keyword, name, span, params, body⟩ := decl
  have hbody := body.read h.right
  have hparams := readParams params h.left.later
  refine ⟨_, rfl, ?_⟩
  cases params with
  | nil =>
    show typeDeclOf float [word name, body.sexpr] = _
    rw [typeDeclOf, hbody, TypeDecl.erased, erasedParams]
  | cons param params =>
    show typeDeclOf float [word name, node (word "params" :: paramSexprs (param :: params)), body.sexpr] = _
    rw [typeDeclOf, hparams, hbody, TypeDecl.erased]

theorem Impl.read (decl : Impl) (h : Readable float decl.nodes) :
    ∃ items, decl.sexpr = node (word "impl" :: items) ∧ implOf float items = decl.erased := by
  obtain ⟨traitType, selfType, fns⟩ := decl
  have hself := selfType.read h.left.right
  have hfns : (fns.map FnDecl.sexpr).map (fnDeclOf float) = fns.map FnDecl.erased := by
    rw [List.map_map]
    refine List.map_congr_left fun decl hmem => ?_
    obtain ⟨items, hitems, hdecl⟩ := decl.read fun n hn => h.right n (List.mem_flatMap.2 ⟨decl, hmem, hn⟩)
    show fnDeclOf float decl.sexpr = _
    rw [hitems, fnDeclOf, hdecl]
  refine ⟨_, rfl, ?_⟩
  cases traitType with
  | none =>
    show implOf float (selfType.sexpr :: fns.map FnDecl.sexpr) = _
    rw [implOf, hself, hfns, Impl.erased, erasedType?]
    intro self rest heq
    cases fns with
    | nil => cases heq
    | cons decl fns =>
      obtain ⟨items, hitems, -⟩ := decl.read h.right.left
      have hhead := hitems.symm.trans (List.cons.inj heq).1
      injection hhead with hhead
      exact absurd (Sexpr.word.inj (List.cons.inj hhead).1) (by decide)
  | some type =>
    show implOf float (type.sexpr :: node [word "for", selfType.sexpr] :: fns.map FnDecl.sexpr) = _
    rw [implOf, type.read h.left.left, hself, hfns, Impl.erased, erasedType?]

theorem ItemKind.read (kind : ItemKind) (h : Readable float kind.nodes) : itemKindOf float kind.sexpr = kind.erased := by
  cases kind with
  | imports decl =>
    obtain ⟨items, hitems, hdecl⟩ := decl.read (h.imp fun _ hn => hn.1)
    rw [ItemKind.sexpr, hitems, itemKindOf, hdecl, ItemKind.erased]
  | fn decl =>
    obtain ⟨items, hitems, hdecl⟩ := decl.read h
    rw [ItemKind.sexpr, hitems, itemKindOf, hdecl, ItemKind.erased]
  | type decl =>
    obtain ⟨items, hitems, hdecl⟩ := decl.read h
    rw [ItemKind.sexpr, hitems, itemKindOf, hdecl, ItemKind.erased]
  | binding name span type value =>
    cases type with
    | none =>
      show itemKindOf float (node [word ":=", word name, value.sexpr]) = _
      rw [itemKindOf, value.read h.right, ItemKind.erased, erasedType?]
    | some type =>
      show itemKindOf float (node [word ":", word name, type.sexpr, value.sexpr]) = _
      rw [itemKindOf, type.read h.left.later, value.read h.right, ItemKind.erased, erasedType?]
  | assignment name span value =>
    show itemKindOf float (node [word "=", word name, value.sexpr]) = _
    rw [itemKindOf, value.read h.later, ItemKind.erased]
  | impl decl =>
    obtain ⟨items, hitems, hdecl⟩ := decl.read h
    rw [ItemKind.sexpr, hitems, itemKindOf, hdecl, ItemKind.erased]

/-- No item begins as one that is exported. -/
theorem ItemKind.sexpr_ne_export (kind : ItemKind) (items : List Sexpr) : kind.sexpr ≠ node (word "export" :: items) := by
  have hmem {tag : String} {items : List Sexpr} (h : kind.sexpr = node (word tag :: items)) :
      tag ∈ ["import", "fn", "type", ":=", ":", "=", "impl"] := by
    cases kind with
    | fn decl =>
      cases decl
      cases h
      decide
    | binding name span type value => cases type <;> (cases h; decide)
    | _ =>
      cases h
      decide
  exact fun h => absurd (hmem h) (by decide)

theorem Item.read (item : Item) (h : Readable float item.kind.nodes) : itemOf float item.sexpr = item.erased := by
  obtain ⟨kind, exported, span⟩ := item
  cases exported with
  | false =>
    show itemOf float kind.sexpr = _
    rw [itemOf, kind.read h, Item.erased]
    exact fun _ => kind.sexpr_ne_export _
  | true =>
    show itemOf float (node [word "export", kind.sexpr]) = _
    rw [itemOf, kind.read h, Item.erased]

end

/-! ## Programs -/

/-- Where texts tell floats apart, each text is that of one float. -/
theorem exists_floatOf {floats : List Float} (h : ∀ x ∈ floats, ∀ y ∈ floats, floatText x = floatText y → x = y) :
    ∃ float : String → Float, ∀ x ∈ floats, float (floatText x) = x := by
  refine ⟨fun text => (floats.find? (floatText · == text)).getD 0, fun x hx => ?_⟩
  cases hfound : floats.find? (floatText · == floatText x) with
  | none =>
    have hnone := List.find?_eq_none.1 hfound x hx
    exact absurd (beq_self_eq_true _) hnone
  | some y =>
    have htext : floatText y = floatText x := by simpa using List.find?_some hfound
    dsimp only
    rw [hfound, Option.getD_some]
    exact h y (List.mem_of_find?_eq_some hfound) x hx htext

theorem Program.read {float : String → Float} (program : Program) (h : Readable float program.nodes) :
    (program.items.map Item.sexpr).map (itemOf float) = program.items.map Item.erased := by
  rw [List.map_map]
  exact List.map_congr_left fun item hmem => item.read fun n hn => h n (List.mem_flatMap.2 ⟨item, hmem, hn⟩)

theorem Program.plain (program : Program) (h : Lawful program.nodes) : ∀ item ∈ program.items, item.sexpr.Plain :=
  fun item hmem => item.plain fun n hn => h n (List.mem_flatMap.2 ⟨item, hmem, hn⟩)

/-- A dump tells what program it is of. -/
theorem Program.erased_eq_of_dump {program program' : Program} (h : Lawful program.nodes) (h' : Lawful program'.nodes)
    (hfinite : ∀ x ∈ program.floats ++ program'.floats, x.isFinite = true)
    (hshown : ∀ x ∈ program.floats ++ program'.floats, ∀ y ∈ program.floats ++ program'.floats,
      floatText x = floatText y → x = y)
    (hdump : program.dump = program'.dump) : program.erased = program'.erased := by
  obtain ⟨float, hfloat⟩ := exists_floatOf hshown
  have readable {nodes : List Node} (hlawful : Lawful nodes)
      (hmem : ∀ x ∈ nodes.filterMap Node.float?, x ∈ program.floats ++ program'.floats) : Readable float nodes := by
    refine fun n hn => ⟨hlawful n hn, fun x hx => ?_⟩
    have hx := hmem x (List.mem_filterMap.2 ⟨n, hn, hx⟩)
    exact ⟨hfinite x hx, hfloat x hx⟩
  have hread := program.read (readable h fun x hx => List.mem_append_left _ hx)
  have hread' := program'.read (readable h' fun x hx => List.mem_append_right _ hx)
  have hsexprs := sexpr_eq_of_dump (program.plain h) (program'.plain h') hdump
  rw [Program.erased, Program.erased, ← hread, ← hread', hsexprs]

end JuiceSyntax
