import Stencil.Proofs.Branch
import Stencil.Proofs.DepthLimit
import Stencil.Proofs.Evaluation.Binding
import Stencil.Proofs.Evaluation.Laziness
import Stencil.Proofs.Evaluation.Range
import Stencil.Proofs.Number.Addition
import Stencil.Proofs.RoundTrip
import Stencil.Proofs.Value.Writing

/-! # Separators between the items of a list

A loop over the positions of a list prints the item at each of them and, behind it, what the method
`match` chooses for the position. The positions are counted by the range, read as indices, and
compared with the last one, each time in decimal.
-/
namespace Stencil
open Grammar

theorem natText_inj {m n : Nat} : natText m = natText n ↔ m = n := by
  constructor
  · intro h
    have hread := natOfText?_natText m
    rw [h,natOfText?_natText] at hread
    exact (Option.some.inj hread).symm
  · exact congrArg natText

/-- The numeral of a length is read as a double, which gives the numeral of the last position. -/
theorem Method.lastPosition?_natText {n : Nat} (h : n ≤ 2 ^ 53) (hpos : 0 < n) :
    lastPosition? (natText n) = some (natText (n - 1)) := by
  obtain ⟨c,r,hcons,-⟩ := exists_natText_cons n
  have hne : natText n ≠ [] := hcons ▸ List.cons_ne_nil c r
  have htrim : (natText n).trim ≠ [] := (trim_numeral false n).symm ▸ hne
  have hread : Double.ofText? (natText n) = some (.ofFraction false n 1) := by
    rw [← Double.ofDecimal_zero h]
    exact Double.ofText?_numeral false n
  have hwhole : (Double.ofFraction false n 1).toInt? = some n := Double.toInt?_ofFraction_one h false
  have hlast : ((Double.ofFraction false n 1).addInt (-1)).toInt? = some ((n - 1 : Nat) : Int) := by
    have hsum : (n : Int) + -1 = (n - 1 : Nat) := by omega
    rw [← hsum]
    exact Double.toInt?_addInt hwhole (by omega)
  rw [lastPosition?,if_neg htrim,hread,Option.map_some,Number.text,hlast]
  rfl

/-- Texts to stand behind the items of a list, those for the first and the last of them optional. -/
structure Separators where
  first : Option Text
  middle : Text
  last : Option Text

namespace Separators

/-- What stands behind the item at position `k` of `n`. A single item has the first text behind it if
the last one is given too, and otherwise the middle one. -/
def behind (n k : Nat) : Separators → Text
  | ⟨some first,middle,some last⟩ =>
    if k = 0 then first else if k = n - 1 ∧ 0 < n - 1 then last else middle
  | ⟨none,middle,some last⟩ => if k = n - 1 ∧ 0 < n - 1 then last else middle
  | ⟨some first,middle,none⟩ => if k = 0 ∧ 0 < n - 1 then first else middle
  | ⟨none,middle,none⟩ => if k = 0 ∧ 0 < n - 1 then [] else middle

/-- The text of each item with what stands behind it. -/
def fragments (separators : Separators) (texts : List Text) : List Fragment :=
  texts.zipIdx.flatMap fun entry => [.value entry.1,.value (separators.behind texts.length entry.2)]

/-- The separators as parameters. -/
def params (separators : Separators) : Params :=
  separators.first.toList.map ("first".toList,·) ++ [("middle".toList,separators.middle)] ++
    separators.last.toList.map ("last".toList,·)

/-- What `match` is given for a list of `n` items. -/
def given (n : Nat) (separators : Separators) : Params :=
  ("length".toList,natText n) :: separators.params

theorem ofList_given (n : Nat) (separators : Separators) :
    Params.ofList (separators.given n) = separators.given n := by
  obtain ⟨_ | first,middle,_ | last⟩ := separators <;> rfl

theorem chosen_given (separators : Separators) {n k : Nat} (h : n ≤ 2 ^ 53) (hk : k < n) :
    Method.chosen (separators.given n) (natText k) = separators.behind n k := by
  have hfirst : natText k = ['0'] ↔ k = 0 := natText_inj (n := 0)
  have hlast : Method.lastPosition? (natText n) = some (natText k) ↔ k = n - 1 := by
    rw [Method.lastPosition?_natText h (Nat.zero_lt_of_lt hk),Option.some.injEq,natText_inj,eq_comm]
  have hlength : ((separators.given n).get? "length".toList).getD [] = natText n := rfl
  have hmiddle : ((separators.given n).get? "middle".toList).getD [] = separators.middle := by
    obtain ⟨_ | first,middle,_ | last⟩ := separators <;> rfl
  have hget : (separators.given n).get? "first".toList = separators.first ∧
      (separators.given n).get? "last".toList = separators.last := by
    obtain ⟨_ | first,middle,_ | last⟩ := separators <;> exact ⟨rfl,rfl⟩
  rw [Method.chosen,hlength,hmiddle,hget.1,hget.2]
  simp only [hfirst,hlast]
  obtain ⟨_ | first,middle,_ | last⟩ := separators
  · exact if_congr (by omega) rfl rfl
  · exact if_congr (by omega) rfl rfl
  · exact if_congr (by omega) rfl rfl
  · exact ite_congr rfl (fun _ => rfl) fun hne => if_congr (by omega) rfl rfl

end Separators

/-- How many items stand under a name. -/
def Arg.lengthOf (name : Text) : Arg := mk (.variable name []) [.mk "length".toList [] 0]

/-- A parameter with a literal value. -/
def Param.literal (entry : Text × Text) : Param := mk entry.1 (some (.ofText entry.2))

namespace Separators

/-- The call that chooses from the separators for a list that stands under `array`. -/
def call (array : Text) (separators : Separators) : Call :=
  .mk "match".toList
    (.mk "length".toList (some (.lengthOf array)) :: separators.params.map Param.literal) 0

/-- Prints the item at a position, and what is chosen to stand behind it. -/
def body (array index : Text) (separators : Separators) : List Block :=
  [.print (.mk (.variable array [.index (.ofName index)]) []),
    .print (.mk (.variable index []) [separators.call array])]

/-- Goes through the positions of the list. -/
def loop (array index : Text) (separators : Separators) : Block :=
  .loop index (.range (.ofText ['0']) (.lengthOf array)) (separators.body array index)

end Separators

section
variable {env : Env} {name : Text} {v w : Value} {items : List Value}

theorem Call.eval_ok {function : Text} {params : List Param} {offset : Nat}
    {given : List (Text × Text)} (method : Method) (hmethod : env.methods function offset = some method)
    (hgiven : (evalParams env params).result = .ok given) (h : method v (.ofList given) = .ok w) :
    ((Call.mk function params offset).eval env v).result = .ok w := by
  simp only [eval,Env.method,hmethod,pure_bind,Run.result_bind_eq_ok]
  refine ⟨given,hgiven,?_⟩
  simp only [Env.invoke,h,Run.result_bind_eq_ok]
  exact ⟨(),rfl,rfl⟩

theorem Arg.eval_piped_ok {call : Call}
    (h : (call.eval env (firstPresent (env.scopes.roots name))).result = .ok w) :
    ((Arg.mk (.variable name []) [call]).eval env).result = .ok w := by
  simp only [eval,Operand.eval_name,pure_bind,evalCalls,bind_pure]
  exact h

theorem Method.size_of_items? (h : v.items? = some items) : size v = .ok items.length := by
  cases v <;> cases h <;> rfl

theorem firstPresent_of_items? (h : v.items? = some items) (below : List Value) :
    firstPresent (v :: below) = v := by
  cases v <;> cases h <;> rfl

/-- The item at a position, which the index gives in decimal. A null is passed over, and prints
nothing either way. -/
theorem Arg.eval_item (hv : v.items? = some items) {index : Arg} {k : Nat} {item : Value}
    (hroots : env.scopes.roots name = [v]) (hindex : (index.eval env).result = .ok w)
    (hw : w.display = .ok (natText k)) (hk : (natText k).length ≤ numeralLimit)
    (hitem : items[k]? = some item) :
    ∃ u, ((Arg.mk (.variable name [.index index]) []).eval env).result = .ok u ∧
      u.display = item.display := by
  have hkeys : HaveKeys env [.index index] [natText k] :=
    .cons ((congrArg Run.result (Run.bind_of_ok hindex _)).trans (mapError_eq_ok.mpr hw)) .nil
  have hstep : v.step (natText k) = item.present := by
    have hcounts := natOfText?_eq_some_iff.mp (natOfText?_natText k)
    rw [Value.step_of_items? hv,Value.itemUnder_of_counts hcounts,if_neg (Nat.not_lt.mpr hk),hitem]
    rfl
  have hlookup : ((Arg.mk (.variable name [.index index]) []).eval env).result =
      (env.scopes.lookup name [natText k]).toResult := by
    simp only [eval,evalCalls,bind_pure]
    exact eval_variable_eq_lookup hkeys name
  rw [hlookup,Scopes.lookup,hroots,firstReached,Value.follow_singleton,hstep]
  cases item with
  | null => exact ⟨.text [],rfl,rfl⟩
  | _ => exact ⟨_,rfl,rfl⟩

theorem evalParams_literals (env : Env) (entries : List (Text × Text)) :
    evalParams env (entries.map Param.literal) = pure entries := by
  induction entries with
  | nil => rfl
  | cons entry entries ih =>
    rw [List.map_cons,evalParams,ih]
    rfl

section
variable (hmethods : env.methods = Registry.standard) (hv : v.items? = some items)
include hmethods hv

theorem Arg.eval_lengthOf_ok {below : List Value} (hroots : env.scopes.roots name = v :: below) :
    ((Arg.lengthOf name).eval env).result = .ok (.text (natText items.length)) := by
  apply eval_piped_ok
  rw [hroots,firstPresent_of_items? hv]
  refine Call.eval_ok (fun v _ => Method.ofWriting ((Method.size v).map natText)) ?_ rfl ?_
  · rw [hmethods]
    rfl
  · rw [Method.size_of_items? hv]
    rfl

theorem Separators.eval_call_ok (separators : Separators) {index : Text} {k : Nat}
    {above below : List Value} (hroots : env.scopes.roots name = v :: below)
    (hindex : env.scopes.roots index = .text (natText k) :: above)
    (h : items.length ≤ 2 ^ 53) (hk : k < items.length) :
    ((Arg.mk (.variable index []) [separators.call name]).eval env).result =
      .ok (.text (separators.behind items.length k)) := by
  have hlength := Arg.eval_lengthOf_ok hmethods hv hroots
  have hgiven : (evalParams env (.mk "length".toList (some (.lengthOf name)) ::
      separators.params.map Param.literal)).result = .ok (separators.given items.length) := by
    rw [evalParams,evalParams_literals,Param.eval]
    simp only [Run.result_bind_eq_ok]
    exact ⟨_,⟨_,hlength,_,rfl,rfl⟩,_,rfl,rfl⟩
  apply Arg.eval_piped_ok
  rw [hindex,← separators.chosen_given h hk,← ofList_given]
  refine Call.eval_ok (fun v params => Method.ofWriting (v.display.map (Method.chosen params))) ?_
    hgiven rfl
  rw [hmethods]
  rfl

end

end

namespace Rendering
variable {body : Rendering} {s : Scopes}

/-- Rounds over the positions of a list that each print the item there, and something with it. The
first item without a text ends them. -/
theorem forEach_positions (name : Text) (part : Text → Nat → List Fragment) {items : List Value}
    {start : Nat} (hround : ∀ entry ∈ items.zipIdx start,
      (within [(.text name,.text (natText entry.2))] body s).result =
        (entry.1.display.map fun t => (s,part t entry.2)).mapError .unwritable) :
    (forEach name body ((items.zipIdx start).map fun entry => .text (natText entry.2)) s).result =
      ((Value.displayItems items).map fun texts =>
        (s,(texts.zipIdx start).flatMap fun entry => part entry.1 entry.2)).mapError .unwritable := by
  induction items generalizing start with
  | nil => rfl
  | cons item items ih =>
    obtain ⟨hfirst,hrest⟩ := List.forall_mem_cons.mp hround
    have hrest := ih hrest
    rw [List.zipIdx_cons,List.map_cons,forEach,Value.displayItems]
    cases hitem : item.display with
    | error cause =>
      rw [hitem] at hfirst
      exact result_andThen_of_error hfirst
    | ok t =>
      rw [hitem] at hfirst
      rw [result_andThen_of_ok hfirst,hrest]
      cases Value.displayItems items <;> rfl

theorem result_within (frame : Frame) (body : Rendering) (s : Scopes) : (within frame body s).result =
    (body (s.push frame)).result.map fun inside => (inside.1.pop,inside.2) :=
  Run.result_bind_pure _ _

end Rendering

/-- The positions of a list in decimal, as the range from zero gives them. -/
theorem range_zero_map (items : List Value) :
    (Int.range 0 items.length).map (fun i => Value.text (intText i)) =
      items.zipIdx.map fun entry => .text (natText entry.2) := by
  have hpositions : items.zipIdx.map Prod.snd = List.range items.length := by
    rw [List.zipIdx_map_snd,List.range_eq_range']
  have hnatText : (fun entry : Value × Nat => Value.text (natText entry.2)) =
      (fun k => .text (natText k)) ∘ Prod.snd := rfl
  rw [hnatText,← List.map_map,hpositions,Int.range,List.map_map,Int.sub_zero,Int.toNat_natCast]
  apply List.map_congr_left
  intro k _
  change Value.text (intText (0 + (k : Int))) = .text (natText k)
  rw [Int.zero_add]
  rfl

namespace Separators
variable {s : Scopes} {array index : Text} {v : Value} {items : List Value}

/-- What one round gives, whose position stands under `index`. -/
theorem result_body (separators : Separators) {k : Nat} {item : Value} {above : List Value}
    (hroots : s.roots array = [v]) (hindex : s.roots index = .text (natText k) :: above)
    (hv : v.items? = some items) (h : items.length ≤ 2 ^ 53) (hitem : items[k]? = some item) :
    (evalBlocks Registry.standard (separators.body array index) s).result =
      (item.display.map fun t =>
        (s,[.value t,.value (separators.behind items.length k)])).mapError .unwritable := by
  have hk : k < items.length := (List.getElem?_eq_some_iff.mp hitem).1
  have hlength : (natText k).length ≤ numeralLimit := by
    have hdigits : (natText k).length ≤ 16 :=
      (Nat.length_toDigits_le_iff (by omega) (by omega)).mpr (by omega)
    exact Nat.le_trans hdigits (by decide)
  have hname : ((Arg.ofName index).eval ⟨s,Registry.standard⟩).result = .ok (.text (natText k)) := by
    rw [Arg.eval_ofName,hindex]
    rfl
  obtain ⟨u,hu,hdisplay⟩ := Arg.eval_item hv hroots hname rfl hlength hitem
  have hprint := Block.eval_print hu
  have hcall : ((Arg.mk (.variable index []) [separators.call array]).eval
      ⟨s,Registry.standard⟩).result = .ok (.text (separators.behind items.length k)) :=
    eval_call_ok rfl hv separators hroots hindex h hk
  rw [hdisplay] at hprint
  rw [body,evalBlocks_pair]
  cases hwritten : item.display with
  | error cause =>
    rw [hwritten] at hprint
    exact Rendering.result_andThen_of_error hprint
  | ok t =>
    rw [hwritten] at hprint
    rw [Rendering.result_andThen_of_ok hprint,Block.eval_print hcall]
    rfl

theorem result_loop (separators : Separators) (hne : index ≠ array) (hroots : s.roots array = [v])
    (hv : v.items? = some items) (h : items.length ≤ 2 ^ 53) :
    ((separators.loop array index).eval Registry.standard s).result =
      ((Value.displayItems items).map fun texts => (s,separators.fragments texts)).mapError .unwritable := by
  have hlength : ((Arg.lengthOf array).eval ⟨s,Registry.standard⟩).result =
      .ok (.text (natText items.length)) :=
    Arg.eval_lengthOf_ok rfl hv hroots
  have hfirst : Number.ofText? ['0'] = some (.whole 0) := Number.ofText?_intText (i := 0) (by decide)
  have hlast : Number.ofText? (natText items.length) = some (.whole items.length) :=
    Number.ofText?_intText (i := items.length) h
  have htext := Arg.evalText_of_ok hlength
  rw [loop,Block.eval,LoopSource.run,evalText_literal,pure_bind,Run.bind_of_ok htext]
  simp only [hfirst,hlast,Number.stepsBetween]
  rw [Rendering.forRange_eq_forEach,range_zero_map,Rendering.forEach_positions index
    (fun t k => [.value t,.value (separators.behind items.length k)])]
  · cases hwritten : Value.displayItems items with
    | error cause => rfl
    | ok texts =>
      have hsame := (Value.displayItems_eq_ok_iff.mp hwritten).length_eq
      simp only [Except.map,fragments,hsame]
  · rintro ⟨item,k⟩ hentry
    have harray := (Scopes.roots_push_other hne (.text (natText k)) s).trans hroots
    have hindex := Scopes.roots_push_name index (.text (natText k)) s
    have hbody := separators.result_body harray hindex hv h (List.mk_mem_zipIdx_iff_getElem?.mp hentry)
    rw [Rendering.result_within,hbody]
    cases item.display <;> rfl

end Separators

theorem setNames_relocate (f : Nat → Nat) (xs : List Block) :
    setNames (xs.map (Block.relocate f)) = setNames xs := by
  rw [setNames,List.filterMap_map]
  apply List.filterMap_congr
  intro block _
  cases block <;> rfl

/-- Blocks that set nothing give the same under other offsets, where methods go by name and all of
them are known. -/
theorem result_evalBlocks_of_relocate {f : Nat → Nat} {methods : Text → Option Method}
    {xs : List Block} (hset : setNames xs = []) {s : Scopes}
    {written : Except Unwritable (Scopes × List Fragment)}
    (h : (evalBlocks (.byName methods) (xs.map (Block.relocate f)) s).result =
      written.mapError .unwritable) :
    (evalBlocks (.byName methods) xs s).result = written.mapError .unwritable := by
  have hm : Registry.Agree f (blocksReferences xs) (.byName methods) (.byName methods) :=
    fun _ _ _ => rfl
  have halike := evalBlocks_alike hm xs (List.Subset.refl _) (s := s) ⟨fun _ _ => rfl,fun _ _ => rfl⟩
  rw [blocksRelocate_eq_map] at halike
  generalize hrun : evalBlocks (.byName methods) xs s = run at halike ⊢
  generalize hrun' : evalBlocks (.byName methods) (xs.map (Block.relocate f)) s = run' at h halike
  cases halike with
  | @ended x x' hx events =>
    obtain ⟨t,before⟩ := x
    obtain ⟨t',after⟩ := x'
    obtain rfl : t = s := (evalBlocks_scopes (congrArg Run.result hrun)).2.2.2.2 hset
    obtain rfl : t' = t := (evalBlocks_scopes (congrArg Run.result hrun')).2.2.2.2
      (by rw [setNames_relocate,hset])
    obtain rfl : after = before := hx.2
    exact h
  | @stopped p q hpq events =>
    obtain rfl := hpq.problem
    obtain ⟨cause,rfl,hcause⟩ := mapError_eq_error.mp h.symm
    cases p <;> cases hcause
    rfl

theorem isName_of_all {name : Text}
    (h : (name.head?.any isNameStart && name.tail.all isNameChar) = true) : IsName name := by
  cases name with
  | nil => cases h
  | cons c rest =>
    rw [Bool.and_eq_true] at h
    exact ⟨h.1,List.all_eq_true.mp h.2⟩

namespace Separators
variable {array index : Text}

theorem loop_relocate (separators : Separators) (array index : Text) :
    (separators.loop array index).relocate nowhere = separators.loop array index := by
  obtain ⟨_ | first,middle,_ | last⟩ := separators <;> rfl

theorem loop_nesting (separators : Separators) (array index : Text) :
    blocksNesting [separators.loop array index] = 2 := by
  obtain ⟨_ | first,middle,_ | last⟩ := separators <;> rfl

theorem params_wellFormed (separators : Separators) :
    ParamsWellFormed (separators.params.map Param.literal) := by
  have hfirst : IsName "first".toList := isName_of_all (by decide)
  have hmiddle : IsName "middle".toList := isName_of_all (by decide)
  have hlast : IsName "last".toList := isName_of_all (by decide)
  have hliteral : ∀ t, (Arg.ofText t).WellFormed := fun _ => ⟨trivial,trivial⟩
  obtain ⟨_ | first,middle,_ | last⟩ := separators
  · exact ⟨⟨hmiddle,hliteral _⟩,trivial⟩
  · exact ⟨⟨hmiddle,hliteral _⟩,⟨hlast,hliteral _⟩,trivial⟩
  · exact ⟨⟨hfirst,hliteral _⟩,⟨hmiddle,hliteral _⟩,trivial⟩
  · exact ⟨⟨hfirst,hliteral _⟩,⟨hmiddle,hliteral _⟩,⟨hlast,hliteral _⟩,trivial⟩

theorem loop_wellFormed (separators : Separators) (harray : IsName array) (hindex : IsName index) :
    BlocksWellFormed false [separators.loop array index] := by
  have hlength : IsName "length".toList := isName_of_all (by decide)
  have hmatch : IsName "match".toList := isName_of_all (by decide)
  have hlengthOf : (Arg.lengthOf array).WellFormed := ⟨⟨harray,trivial⟩,⟨hlength,trivial⟩,trivial⟩
  have hitem : (Arg.mk (.variable array [.index (.ofName index)]) []).WellFormed :=
    ⟨⟨harray,⟨⟨hindex,trivial⟩,trivial⟩,trivial⟩,trivial⟩
  have hcall : (separators.call array).WellFormed :=
    ⟨hmatch,⟨hlength,hlengthOf⟩,separators.params_wellFormed⟩
  have hchoice : (Arg.mk (.variable index []) [separators.call array]).WellFormed :=
    ⟨⟨hindex,trivial⟩,hcall,trivial⟩
  exact ⟨⟨hindex,⟨⟨trivial,trivial⟩,hlengthOf⟩,hitem,hchoice,trivial⟩,trivial⟩

/-- The loop over the positions of a list prints the texts of its items in order, each with what is to
stand behind it at its place; an item without a text is where it stops. That is what it gives
wherever its calls stand, and what its source text gives as a template of its own. -/
theorem render_loop (separators : Separators) {array index : Text} (harray : IsName array)
    (hindex : IsName index) (hne : index ≠ array) {vars : Mapping} {v : Value} {items : List Value}
    (hvar : Mapping.get? array vars = some v) (hv : v.items? = some items)
    (h : items.length ≤ 2 ^ 53) :
    (∀ ys : List Block, ys.map (Block.relocate nowhere) = [separators.loop array index] →
      (evalBlocks Registry.standard ys (.start vars)).result =
        ((Value.displayItems items).map fun texts =>
          (.start vars,separators.fragments texts)).mapError .unwritable) ∧
    ∀ (ceiling : Nat) (options : Options), 2 ≤ ceiling → 2 ≤ options.maxDepth →
      (Template.render ceiling Registry.standard options vars
        (blocksSource false [separators.loop array index])).result =
        ((Value.displayItems items).map fun texts => Fragment.output options (separators.fragments texts)).mapError
          fun cause => .broken (.ofUnwritable cause) := by
  have hroots : (Scopes.start vars).roots array = [v] := by
    have hempty : Mapping.get? array [] = none := rfl
    change [[],vars].filterMap (Mapping.get? array) = [v]
    rw [List.filterMap_cons_none hempty,List.filterMap_cons_some hvar]
    rfl
  have hloop := separators.result_loop hne hroots hv h
  have heval (ys : List Block) (hys : ys.map (Block.relocate nowhere) = [separators.loop array index]) :
      (evalBlocks Registry.standard ys (.start vars)).result =
        ((Value.displayItems items).map fun texts =>
          (.start vars,separators.fragments texts)).mapError .unwritable := by
    have hset : setNames ys = [] := by
      rw [← setNames_relocate nowhere,hys]
      rfl
    apply result_evalBlocks_of_relocate (f := nowhere) hset
    rw [hys,evalBlocks_cons]
    exact (congrArg Run.result (congrFun (Rendering.andThen_nothing _) _)).trans hloop
  refine ⟨heval,fun ceiling options hceiling hdepth => ?_⟩
  have hlevels : 2 ≤ levelsFor ceiling options.maxDepth := by
    rw [levelsFor_natCast]
    exact Nat.le_min.mpr ⟨hdepth,hceiling⟩
  obtain ⟨ys,hread,hys⟩ := exists_readBlocks (separators.loop_wellFormed harray hindex)
    ((separators.loop_nesting array index).trans_le hlevels)
  rw [List.map_singleton,loop_relocate] at hys
  rw [(render_evaluates Registry.standard vars hread).1,heval ys hys]
  cases Value.displayItems items <;> rfl

/-- The first text stands behind the first item and the last one behind the last; a null prints
nothing. Where there is no last text, a single item has the middle one behind it. -/
theorem render_loop_of_null :
    let array := "xs".toList
    let index := ['i']
    let both : Separators := ⟨some ['<'],['-'],some ['>']⟩
    let items := [Value.text ['a'],.null,.int 7]
    let single : Separators := ⟨some ['<'],['-'],none⟩
    IsName array ∧ IsName index ∧ index ≠ array ∧ items.length ≤ 2 ^ 53 ∧
      (Template.render 1000 Registry.standard {} [(.text array,.list items)]
        (blocksSource false [both.loop array index])).result = .ok "a<-7>".toList ∧
      (evalBlocks Registry.standard [single.loop array index]
        (.start [(.text array,.tuple [.text ['a']])])).result =
        .ok (.start [(.text array,.tuple [.text ['a']])],[.value ['a'],.value ['-']]) := by
  intro array index both items single
  have harray : IsName array := isName_of_all (by decide)
  have hindex : IsName index := isName_of_all (by decide)
  have hne : index ≠ array := by decide
  have hlength : items.length ≤ 2 ^ 53 := by decide
  have hvar : ∀ v, Mapping.get? array [(.text array,v)] = some v := fun _ => rfl
  obtain ⟨-,hrender⟩ := both.render_loop harray hindex hne (hvar (.list items)) rfl hlength
  obtain ⟨heval,-⟩ :=
    single.render_loop harray hindex hne (hvar (.tuple [.text ['a']])) rfl (by decide)
  refine ⟨harray,hindex,hne,hlength,(hrender 1000 {} (by decide) (by decide)).trans ?_,heval _ rfl⟩
  have hwritten : Value.displayItems items = .ok [['a'],[],['7']] := by decide +kernel
  rw [hwritten]
  exact congrArg Except.ok (by decide +kernel)

-- The source text of such a loop.
example : blocksSource false [loop "xs".toList "i".toList ⟨some ['F'],['M'],some ['L']⟩] =
    ("\x7b\x7bfor i in \"0\"..xs -> length()\x7d\x7d\x7b\x7b:xs[i]\x7d\x7d" ++
      "\x7b\x7b:i -> match(length=xs -> length() first=\"F\" middle=\"M\" last=\"L\")\x7d\x7d" ++
      "\x7b\x7b/for\x7d\x7d").toList := by
  decide +kernel

end Separators

end Stencil
