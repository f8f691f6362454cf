import Taquito.Typechecker.Frames

/-!
# Operations on a longer stack

Each operation without code of its own mirrors itself on a longer stack, with the two exceptions that
`LocalAt` excludes. `typeOperation_extends` is the table of them.
-/

open Js MichelCodec

namespace Typechecker

open StackType

section

variable {i : Instruction} {stack rest : List StackType}

/-! ## Combs -/

theorem typePAIR_extends : Mirrors (Extends rest) (typePAIR i stack) (typePAIR i (stack ++ rest)) := by
  refine .bind_eq (.same _) fun n => .ite (fun _ => .error) fun _ => ?_
  by_cases hlen : stack.length < n
  · rw [if_pos hlen]
    exact .error
  · rw [if_neg hlen, if_neg (by rw [List.length_append]; omega)]
    rw [List.take_append_of_le_length (by omega), List.drop_append_of_le_length (by omega)]
    refine .bind_eq (instructionAnn_mirrors _ _) fun ia => ?_
    refine .bind_eq (pairFields_mirrors _ _ _) fun retArgs => ?_
    exact push_extends (annotate_mirrors _ _) _

theorem typeUNPAIR_extends :
    Mirrors (Extends rest) (typeUNPAIR i stack) (typeUNPAIR i (stack ++ rest)) := by
  refine .bind_eq (.same _) fun n => .ite (fun _ => .error) fun _ => args1_extends fun s tail _ => ?_
  refine .bind_eq (instructionAnn_mirrors _ _) fun ia => .bind_eq (getN_mirrors _ _ _) fun l => ?_
  refine .bind_eq (unpairFields_mirrors _ _ _ _) fun fields => ?_
  exact .ok (by rw [Extends, List.append_assoc])

theorem typeField_extends (second : Bool) :
    Mirrors (Extends rest) (typeField i stack second) (typeField i (stack ++ rest) second) := by
  refine args1_extends fun s tail _ => .bind_eq (.same _) fun p => ?_
  refine .bind_eq (instructionAnn_mirrors _ _) fun ia => ?_
  exact push_extends (annotateField_mirrors _ _ _ _ _) _

theorem typeGetNth_extends (args : List Expr) :
    Mirrors (Extends rest) (typeGetNth i stack args) (typeGetNth i (stack ++ rest) args) := by
  unfold typeGetNth
  split
  · refine .bind_eq (.same _) fun n => args1_extends fun s tail _ => ?_
    exact .bind_eq (getNth_mirrors _ _ _) fun _ => push_extends (annotateVar_mirrors _ _) _
  · exact .error

theorem typeUpdateNth_extends (args : List Expr) :
    Mirrors (Extends rest) (typeUpdateNth i stack args) (typeUpdateNth i (stack ++ rest) args) := by
  unfold typeUpdateNth
  split
  · refine .bind_eq (.same _) fun n => args2_extends fun x s tail _ => ?_
    exact .bind_eq (updateNth_mirrors _ _ _ _) fun _ => push_extends (annotateVar_mirrors _ _) _
  · exact .error

/-! ## Constant results and arithmetic -/

theorem assertTypeIDs_mirrors (ids : List (List String)) (n : ℕ) (s : List StackType)
    (h : ids.length ≤ s.length) :
    Mirrors Eq (assertTypeIDs i stack n ids s)
      (assertTypeIDs i (stack ++ rest) n ids (s ++ rest)) := by
  induction ids generalizing n s with
  | nil => exact .ok rfl
  | cons id ids ih =>
    cases s with
    | nil => simp only [List.length_nil, List.length_cons] at h; omega
    | cons a s =>
      refine .bind_eq (assertTypeID_mirrors _ _ _) fun _ => ih (n + 1) s ?_
      simp only [List.length_cons] at h
      omega

theorem typeSignature_extends (s : Signature) :
    Mirrors (Extends rest) (typeSignature i stack s) (typeSignature i (stack ++ rest) s) := by
  unfold typeSignature
  by_cases hlen : stack.length < s.ids.length
  · rw [if_pos hlen]
    exact .error
  · rw [if_neg hlen, if_neg (by rw [List.length_append]; omega),
      List.drop_append_of_le_length (by omega)]
    refine .bind_eq (assertTypeIDs_mirrors _ _ _ (by omega)) fun _ => ?_
    exact push_extends (annotateVar_mirrors _ _) _

theorem typeBinary_extends (op : Binary) :
    Mirrors (Extends rest) (typeBinary i stack op) (typeBinary i (stack ++ rest) op) := by
  refine args2_extends fun a b tail _ => ?_
  split
  · exact push_extends (annotateVar_mirrors _ _) _
  · exact .error

theorem typeNEG_extends : Mirrors (Extends rest) (typeNEG i stack) (typeNEG i (stack ++ rest)) :=
  args1_extends fun _ _ _ => .ite (fun _ => push_extends (annotateVar_mirrors _ _) _)
    fun _ => push_extends (annotateVar_mirrors _ _) _

theorem typeNOT_extends : Mirrors (Extends rest) (typeNOT i stack) (typeNOT i (stack ++ rest)) :=
  args1_extends fun _ _ _ => .ite (fun _ => push_extends (annotateVar_mirrors _ _) _)
    fun _ => push_extends (annotateVar_mirrors _ _) _

theorem typeCOMPARE_extends :
    Mirrors (Extends rest) (typeCOMPARE i stack) (typeCOMPARE i (stack ++ rest)) := by
  refine args2_extends fun a b tail _ => .bind_eq (ensure_mirrors _ _) fun _ => ?_
  exact .bind_eq (ensure_mirrors _ _) fun _ => push_extends (annotateVar_mirrors _ _) _

/-! ## The stack -/

theorem typeDUP_extends : Mirrors (Extends rest) (typeDUP i stack) (typeDUP i (stack ++ rest)) := by
  refine .bind_eq (.same _) fun n => .ite (fun _ => .error) fun _ => argAt_extends fun a _ => ?_
  exact .ite (fun _ => .error) fun _ => .ok rfl

theorem typeSWAP_extends : Mirrors (Extends rest) (typeSWAP i stack) (typeSWAP i (stack ++ rest)) :=
  args2_extends fun _ _ _ _ => .bind_eq (instructionAnn_mirrors _ _) fun _ => .ok rfl

theorem assertDepth_extends {n : ℕ} {x y : Checked ReturnType}
    (h : n ≤ stack.length → Mirrors (Extends rest) x y) :
    Mirrors (Extends rest) (do assertDepth i stack n; x) (do assertDepth i (stack ++ rest) n; y) := by
  unfold assertDepth
  by_cases hlen : stack.length < n
  · rw [if_pos hlen]
    exact .error
  · rw [if_neg hlen, if_neg (by rw [List.length_append]; omega)]
    exact .bind_eq (.same _) fun _ => h (by omega)

theorem typeDROP_extends : Mirrors (Extends rest) (typeDROP i stack) (typeDROP i (stack ++ rest)) := by
  refine .bind_eq (instructionAnn_mirrors _ _) fun _ => .bind_eq (.same _) fun n => ?_
  exact assertDepth_extends fun hlen => .ok (by rw [List.drop_append_of_le_length hlen]; rfl)

theorem typeDIG_extends : Mirrors (Extends rest) (typeDIG i stack) (typeDIG i (stack ++ rest)) := by
  refine .bind_eq (instructionAnn_mirrors _ _) fun _ => .bind_eq (.same _) fun e => ?_
  refine .bind_eq (.same _) fun n => argAt_extends fun a ha => .ok ?_
  have hlt := (List.getElem?_eq_some_iff.mp ha).1
  rw [List.take_append_of_le_length (by omega), List.drop_append_of_le_length (by omega)]
  simp only [Extends, List.cons_append, List.append_assoc]

theorem typeDUG_extends (hlocal : rest = [] ∨ ∀ e n, i.arg 0 = .ok e → natOf e = .ok n →
      n < stack.length) :
    Mirrors (Extends rest) (typeDUG i stack) (typeDUG i (stack ++ rest)) := by
  obtain rfl | hlocal := hlocal
  · rw [List.append_nil]
    refine (Mirrors.same _).mono ?_
    rintro r _ rfl
    cases r <;> simp only [Extends, List.append_nil]
  · refine .bind_eq (instructionAnn_mirrors _ _) fun _ => ?_
    intro r hr
    obtain ⟨e, he, hr⟩ := Except.bind_eq_ok.mp hr
    obtain ⟨n, hn, hr⟩ := Except.bind_eq_ok.mp hr
    have hlt := hlocal e n he hn
    have hsame : Mirrors (Extends rest)
        (argAt i stack 0 [] fun a =>
          return .stack ((stack.drop 1).take n ++ a :: stack.drop (n + 1)))
        (argAt i (stack ++ rest) 0 [] fun a =>
          return .stack (((stack ++ rest).drop 1).take n ++ a :: (stack ++ rest).drop (n + 1))) := by
      refine argAt_extends fun a _ => .ok ?_
      rw [List.drop_append_of_le_length (by omega), List.drop_append_of_le_length (by omega),
        List.take_append_of_le_length (by rw [List.length_drop]; omega)]
      simp only [Extends, List.append_assoc, List.cons_append]
    obtain ⟨r', hr', h⟩ := hsame r hr
    exact ⟨r', Except.bind_eq_ok.mpr ⟨e, he, Except.bind_eq_ok.mpr ⟨n, hn, hr'⟩⟩, h⟩

theorem typeRENAME_extends :
    Mirrors (Extends rest) (typeRENAME i stack) (typeRENAME i (stack ++ rest)) :=
  args1_extends fun _ _ _ => push_extends (annotateVar_mirrors _ _) _

theorem typeCAST_extends : Mirrors (Extends rest) (typeCAST i stack) (typeCAST i (stack ++ rest)) := by
  refine .bind_eq (instructionAnn_mirrors _ _) fun _ => args1_extends fun s tail _ => ?_
  refine .bind_eq (.same _) fun t => .bind_eq (.same _) fun _ => ?_
  exact .bind_eq (ensureTypesEqual_mirrors _ _) fun _ => .ok rfl

/-! ## Options, unions and collections -/

theorem typeSOME_extends : Mirrors (Extends rest) (typeSOME i stack) (typeSOME i (stack ++ rest)) :=
  args1_extends fun _ _ _ => push_extends (annotateResult_mirrors _) _

theorem typeUNIT_extends : Mirrors (Extends rest) (typeUNIT i stack) (typeUNIT i (stack ++ rest)) :=
  push_extends (annotateResult_mirrors _) _

theorem typeEmpty_extends (p : String) :
    Mirrors (Extends rest) (typeEmpty i stack p) (typeEmpty i (stack ++ rest) p) := by
  refine .bind_eq (.same _) fun t => .bind_eq (.same _) fun _ => ?_
  exact push_extends (annotateResult_mirrors _) _

theorem typeSide_extends (left : Bool) :
    Mirrors (Extends rest) (typeSide i stack left) (typeSide i (stack ++ rest) left) := by
  refine args1_extends fun s tail _ => .bind_eq (instructionAnn_mirrors _ _) fun ia => ?_
  refine .bind_eq (argAnn_mirrors _) fun va => .bind_eq (annotate_mirrors _ _) fun given => ?_
  refine .bind_eq (.same _) fun t => .bind_eq (annotate_mirrors _ _) fun other => ?_
  exact push_extends (annotate_mirrors _ _) _

theorem typeCONS_extends : Mirrors (Extends rest) (typeCONS i stack) (typeCONS i (stack ++ rest)) := by
  refine args2_extends fun a l tail _ => .bind_eq (.same _) fun elt => ?_
  exact .bind_eq (ensureTypesEqual_mirrors _ _) fun _ => push_extends (annotateVar_mirrors _ _) _

theorem typeMEM_extends : Mirrors (Extends rest) (typeMEM i stack) (typeMEM i (stack ++ rest)) := by
  refine args2_extends fun a c tail _ => .bind_eq (ensure_mirrors _ _) fun _ => ?_
  refine .bind_eq (.same _) fun t => .bind_eq (ensureTypesEqual_mirrors _ _) fun _ => ?_
  exact push_extends (annotateVar_mirrors _ _) _

theorem typeGetMap_extends :
    Mirrors (Extends rest) (typeGetMap i stack) (typeGetMap i (stack ++ rest)) := by
  refine args2_extends fun a c tail _ => .bind_eq (ensure_mirrors _ _) fun _ => ?_
  refine .bind_eq (.same _) fun t => .bind_eq (ensureTypesEqual_mirrors _ _) fun _ => ?_
  exact .bind_eq (.same _) fun _ => push_extends (annotateVar_mirrors _ _) _

theorem typeGET_extends : Mirrors (Extends rest) (typeGET i stack) (typeGET i (stack ++ rest)) := by
  unfold typeGET
  split
  · exact typeGetNth_extends _
  · exact typeGetMap_extends

theorem typeUpdateMap_extends :
    Mirrors (Extends rest) (typeUpdateMap i stack) (typeUpdateMap i (stack ++ rest)) := by
  have hpush (p : String) (types : List StackType) (tail : List StackType)
      (htail : 1 ≤ tail.length) : Mirrors (Extends rest)
      (push (do annotateVar i stack (← updated i stack p types) none) (tail.drop 1))
      (push (do annotateVar i (stack ++ rest) (← updated i (stack ++ rest) p types) none)
        ((tail ++ rest).drop 1)) := by
    rw [List.drop_append_of_le_length htail]
    exact push_extends (.bind_eq (updated_mirrors _ _) fun _ => annotateVar_mirrors _ _) _
  have htail {key value t : StackType} {tail : List StackType} (hs : stack = key :: value :: tail)
      (ht : stack[2]? = some t) : 1 ≤ tail.length := by
    have := (List.getElem?_eq_some_iff.mp ht).1
    rw [hs, List.length_cons, List.length_cons] at this
    omega
  refine args2_extends fun key value tail hs => .bind_eq (ensure_mirrors _ _) fun _ => ?_
  refine .ite (fun _ => argAt_extends fun set hset => ?_) fun _ => argAt_extends fun map hmap => ?_
  · refine .bind_eq (.same _) fun t => .bind_eq (ensureTypesEqual_mirrors _ _) fun _ => ?_
    exact hpush _ _ _ (htail hs hset)
  · refine .bind_eq (.same _) fun t => .bind_eq (ensureTypesEqual_mirrors _ _) fun _ => ?_
    refine .bind_eq (.same _) fun type => .ite (fun _ => hpush _ _ _ (htail hs hmap)) fun _ => ?_
    exact .bind_eq (ensure_mirrors _ _) fun _ => hpush _ _ _ (htail hs hmap)

theorem typeUPDATE_extends :
    Mirrors (Extends rest) (typeUPDATE i stack) (typeUPDATE i (stack ++ rest)) := by
  unfold typeUPDATE
  split
  · exact typeUpdateNth_extends _
  · exact typeUpdateMap_extends

theorem typeGET_AND_UPDATE_extends :
    Mirrors (Extends rest) (typeGET_AND_UPDATE i stack) (typeGET_AND_UPDATE i (stack ++ rest)) := by
  refine .bind_eq (instructionAnn_mirrors _ _) fun ia => args3_extends fun key value map tail _ => ?_
  refine .bind_eq (ensure_mirrors _ _) fun _ => .bind_eq (.same _) fun t => ?_
  refine .bind_eq (ensureTypesEqual_mirrors _ _) fun _ => .bind_eq (.same _) fun type => ?_
  refine .bind_eq (.same _) fun found => .bind_eq (ensureTypesEqual_mirrors _ _) fun _ => ?_
  have hrest : ∀ p, Mirrors (Extends rest)
      (do
        let found ← annotate i stack (ofPrim "option" [found]) { v := varAt ia 0 }
        let map ← annotate i stack (← updated i stack p [key, type]) { v := varAt ia 1 }
        return .stack (found :: map :: tail))
      (do
        let found ← annotate i (stack ++ rest) (ofPrim "option" [found]) { v := varAt ia 0 }
        let map ← annotate i (stack ++ rest) (← updated i (stack ++ rest) p [key, type])
          { v := varAt ia 1 }
        return .stack (found :: map :: (tail ++ rest))) := by
    intro p
    refine .bind_eq (annotate_mirrors _ _) fun found => .bind_eq (updated_mirrors _ _) fun m => ?_
    exact .bind_eq (annotate_mirrors _ _) fun map => .ok rfl
  dsimp only
  split
  · rw [if_neg (by decide), if_neg (by decide)]
    exact hrest _
  · rw [if_pos rfl, if_pos rfl]
    exact .bind_eq (ensure_mirrors _ _) fun _ => hrest _

theorem typeEMPTY_SET_extends :
    Mirrors (Extends rest) (typeEMPTY_SET i stack) (typeEMPTY_SET i (stack ++ rest)) := by
  refine .bind_eq (.same _) fun t => .bind_eq (.same _) fun _ => ?_
  exact .bind_eq (ensure_mirrors _ _) fun _ => push_extends (annotateResult_mirrors _) _

theorem typeEMPTY_MAP_extends :
    Mirrors (Extends rest) (typeEMPTY_MAP i stack) (typeEMPTY_MAP i (stack ++ rest)) := by
  refine .bind_eq (.same _) fun t => .bind_eq (.same _) fun _ => ?_
  refine .bind_eq (ensure_mirrors _ _) fun _ => .bind_eq (.same _) fun v => ?_
  exact .bind_eq (.same _) fun _ => push_extends (annotateResult_mirrors _) _

theorem typeEMPTY_BIG_MAP_extends :
    Mirrors (Extends rest) (typeEMPTY_BIG_MAP i stack) (typeEMPTY_BIG_MAP i (stack ++ rest)) := by
  refine .bind_eq (.same _) fun t => .bind_eq (.same _) fun _ => ?_
  refine .bind_eq (ensure_mirrors _ _) fun _ => .bind_eq (.same _) fun v => ?_
  refine .bind_eq (.same _) fun _ => .bind_eq (ensure_mirrors _ _) fun _ => ?_
  exact push_extends (annotateResult_mirrors _) _

/-! ## Strings and octets -/

theorem typeCONCAT_extends :
    Mirrors (Extends rest) (typeCONCAT i stack) (typeCONCAT i (stack ++ rest)) := by
  refine args1_extends fun s tail hs => .ite (fun _ => ?_) fun _ => argAt_extends fun s' hs' => ?_
  · refine .bind_eq (.same _) fun elt => .ite (fun _ => .error) fun _ => ?_
    exact push_extends (annotateVar_mirrors _ _) _
  · refine .ite (fun _ => .error) fun _ => ?_
    have hlen := (List.getElem?_eq_some_iff.mp hs').1
    rw [hs, List.length_cons] at hlen
    rw [List.drop_append_of_le_length (by omega)]
    exact push_extends (annotateVar_mirrors _ _) _

theorem typeSLICE_extends :
    Mirrors (Extends rest) (typeSLICE i stack) (typeSLICE i (stack ++ rest)) :=
  args3_extends fun _ _ _ _ _ => push_extends (annotateVar_mirrors _ _) _

theorem typePACK_extends : Mirrors (Extends rest) (typePACK i stack) (typePACK i (stack ++ rest)) :=
  args1_extends fun _ _ _ => .bind_eq (ensure_mirrors _ _) fun _ =>
    push_extends (annotateVar_mirrors _ _) _

theorem typeUNPACK_extends :
    Mirrors (Extends rest) (typeUNPACK i stack) (typeUNPACK i (stack ++ rest)) := by
  refine args1_extends fun _ tail _ => .bind_eq (.same _) fun t => .bind_eq (.same _) fun _ => ?_
  exact push_extends (annotateVar_mirrors _ _) _

/-! ## Functions -/

theorem typeEXEC_extends : Mirrors (Extends rest) (typeEXEC i stack) (typeEXEC i (stack ++ rest)) := by
  refine args2_extends fun a f tail _ => .bind_eq (.same _) fun t => ?_
  refine .bind_eq (ensureTypesEqual_mirrors _ _) fun _ => ?_
  exact push_extends (.bind_eq (.same _) fun _ => annotateVar_mirrors _ _) _

theorem typeAPPLY_extends :
    Mirrors (Extends rest) (typeAPPLY i stack) (typeAPPLY i (stack ++ rest)) := by
  refine args2_extends fun a f tail _ => .bind_eq (ensure_mirrors _ _) fun _ => ?_
  refine .bind_eq (ensure_mirrors _ _) fun _ => .bind_eq (.same _) fun pt => ?_
  refine .ite (fun _ => .error) fun _ => .bind_eq (.same _) fun t => ?_
  refine .bind_eq (ensureTypesEqual_mirrors _ _) fun _ => push_extends ?_ _
  exact .bind_eq (.same _) fun b => .bind_eq (.same _) fun r => annotateVar_mirrors _ _

theorem typeFAILWITH_extends (ctx : Context) :
    Mirrors (Extends rest) (typeFAILWITH i stack ctx) (typeFAILWITH i (stack ++ rest) ctx) := by
  refine args1_extends fun s _ _ => ?_
  dsimp only
  split
  · exact .bind_eq (ensure_mirrors _ _) fun _ => .ok rfl
  · exact .ok rfl

theorem typeNEVER_extends :
    Mirrors (Extends rest) (typeNEVER i stack) (typeNEVER i (stack ++ rest)) :=
  args1_extends fun _ _ _ => .ok rfl

/-! ## Contracts and operations -/

theorem typeSELF_extends (ctx : Context) :
    Mirrors (Extends rest) (typeSELF i stack ctx) (typeSELF i (stack ++ rest) ctx) := by
  unfold typeSELF
  split
  · exact .error
  · refine .bind_eq (instructionAnn_mirrors _ _) fun ia => ?_
    exact .bind_eq (entryPoint_mirrors _ _) fun ep => push_extends (annotate_mirrors _ _) _

theorem typeTRANSFER_TOKENS_extends :
    Mirrors (Extends rest) (typeTRANSFER_TOKENS i stack) (typeTRANSFER_TOKENS i (stack ++ rest)) := by
  refine args3_extends fun a _ c tail _ => .bind_eq (.same _) fun t => ?_
  exact .bind_eq (ensureTypesEqual_mirrors _ _) fun _ => push_extends (annotateVar_mirrors _ _) _

theorem typeSET_DELEGATE_extends :
    Mirrors (Extends rest) (typeSET_DELEGATE i stack) (typeSET_DELEGATE i (stack ++ rest)) :=
  args1_extends fun _ _ _ => .bind_eq (assertKeyHash_mirrors _) fun _ =>
    push_extends (annotateVar_mirrors _ _) _

theorem typeADDRESS_extends :
    Mirrors (Extends rest) (typeADDRESS i stack) (typeADDRESS i (stack ++ rest)) := by
  refine args1_extends fun s tail _ => .bind_eq (instructionAnn_mirrors _ _) fun ia => ?_
  exact .bind_eq (givenVar_mirrors _ _ _) fun v => push_extends (annotate_mirrors _ _) _

theorem typeSELF_ADDRESS_extends (ctx : Context) :
    Mirrors (Extends rest) (typeSELF_ADDRESS i stack ctx) (typeSELF_ADDRESS i (stack ++ rest) ctx) := by
  unfold typeSELF_ADDRESS
  split
  · exact push_extends (annotateVar_mirrors _ _) _
  · exact .bind_eq (.same _) fun _ => push_extends (annotateVar_mirrors _ _) _

theorem typeCONTRACT_extends :
    Mirrors (Extends rest) (typeCONTRACT i stack) (typeCONTRACT i (stack ++ rest)) := by
  refine args1_extends fun s tail _ => .bind_eq (.same _) fun t => .bind_eq (.same _) fun _ => ?_
  refine .bind_eq (instructionAnn_mirrors _ _) fun ia => ?_
  have hrest : Mirrors (Extends rest)
      (do
        let v ← givenVar i stack ia s (js "contract")
        push (annotate i stack (ofPrim "option" [ofPrim "contract" [t]]) { v := .list v }) tail)
      (do
        let v ← givenVar i (stack ++ rest) ia s (js "contract")
        push (annotate i (stack ++ rest) (ofPrim "option" [ofPrim "contract" [t]]) { v := .list v })
          (tail ++ rest)) :=
    .bind_eq (givenVar_mirrors _ _ _) fun v => push_extends (annotate_mirrors _ _) _
  dsimp only
  split
  · refine .bind_eq (entryPoint_mirrors _ _) fun ep => ?_
    exact .bind_eq (ensureTypesEqual_mirrors _ _) fun _ => hrest
  · exact .bind_eq (.same _) fun _ => hrest

theorem typeVIEW_extends : Mirrors (Extends rest) (typeVIEW i stack) (typeVIEW i (stack ++ rest)) := by
  refine args2_extends fun a _ tail _ => .bind_eq (ensure_mirrors _ _) fun _ => ?_
  exact .bind_eq (.same _) fun _ => push_extends (annotateVar_mirrors _ _) _

theorem typeEMIT_extends (hlocal : rest = [] ∨ (i.args = none → stack ≠ [])) :
    Mirrors (Extends rest) (typeEMIT i stack) (typeEMIT i (stack ++ rest)) := by
  refine .bind_eq (instructionAnn_mirrors _ _) fun ia => ?_
  split
  · refine args1_extends fun s tail _ => .bind_eq (.same _) fun t => ?_
    exact .bind_eq (ensureTypesEqual_mirrors _ _) fun _ => push_extends (annotate_mirrors _ _) _
  · rename_i hnone
    have hdrop : (stack ++ rest).drop 1 = stack.drop 1 ++ rest := by
      obtain rfl | hlocal := hlocal
      · simp only [List.append_nil]
      · exact List.drop_append_of_le_length (List.length_pos_of_ne_nil (hlocal hnone))
    rw [hdrop]
    exact push_extends (annotate_mirrors _ _) _

/-! ## Tickets, curves and sapling -/

theorem typeTICKET_extends (ctx : Context) :
    Mirrors (Extends rest) (typeTICKET i stack ctx) (typeTICKET i (stack ++ rest) ctx) := by
  refine args2_extends fun s _ tail _ => .bind_eq (ensure_mirrors _ _) fun _ => ?_
  refine .ite (fun _ => push_extends (annotateResult_mirrors _) _) fun _ => push_extends ?_ _
  exact .bind_eq (annotateResult_mirrors _) fun _ => annotateVar_mirrors _ _

theorem typeJOIN_TICKETS_extends :
    Mirrors (Extends rest) (typeJOIN_TICKETS i stack) (typeJOIN_TICKETS i (stack ++ rest)) := by
  refine args1_extends fun s tail _ => .bind_eq (.same _) fun p => .ite (fun _ => .error) fun _ => ?_
  refine .bind_eq (ensureTypesEqual_mirrors _ _) fun _ => push_extends ?_ _
  exact .bind_eq (updated_mirrors _ _) fun _ => annotateVar_mirrors _ _

theorem typeSPLIT_TICKET_extends :
    Mirrors (Extends rest) (typeSPLIT_TICKET i stack) (typeSPLIT_TICKET i (stack ++ rest)) := by
  refine args2_extends fun s amounts tail _ => .bind_eq (.same _) fun p => ?_
  refine .ite (fun _ => .error) fun _ => .bind_eq (ensureTypesEqual_mirrors _ _) fun _ => ?_
  exact push_extends (.bind_eq (updated_mirrors _ _) fun _ => annotateVar_mirrors _ _) _

theorem typeREAD_TICKET_extends :
    Mirrors (Extends rest) (typeREAD_TICKET i stack) (typeREAD_TICKET i (stack ++ rest)) := by
  refine .bind_eq (instructionAnn_mirrors _ _) fun ia => args1_extends fun s tail _ => ?_
  refine .bind_eq (.same _) fun t => .bind_eq (annotate_mirrors _ _) fun content => ?_
  refine .bind_eq (annotate_mirrors _ _) fun read => ?_
  exact .bind_eq (annotate_mirrors _ _) fun ticket => .ok rfl

theorem typePAIRING_CHECK_extends :
    Mirrors (Extends rest) (typePAIRING_CHECK i stack) (typePAIRING_CHECK i (stack ++ rest)) := by
  refine args1_extends fun l tail _ => .bind_eq (.same _) fun p => .ite (fun _ => .error) fun _ => ?_
  refine .bind_eq (.same _) fun c => .ite (fun _ => .error) fun _ => .ite (fun _ => .error) fun _ => ?_
  exact push_extends (annotateVar_mirrors _ _) _

theorem typeSAPLING_EMPTY_STATE_extends :
    Mirrors (Extends rest) (typeSAPLING_EMPTY_STATE i stack)
      (typeSAPLING_EMPTY_STATE i (stack ++ rest)) :=
  .bind_eq (.same _) fun _ => push_extends (annotateResult_mirrors _) _

theorem typeSAPLING_VERIFY_UPDATE_extends (ctx : Context) :
    Mirrors (Extends rest) (typeSAPLING_VERIFY_UPDATE i stack ctx)
      (typeSAPLING_VERIFY_UPDATE i (stack ++ rest) ctx) := by
  refine args2_extends fun t s tail _ => .bind_eq (.same _) fun x => .bind_eq (.same _) fun y => ?_
  refine .ite (fun _ => .error) fun _ => push_extends (.bind_eq ?_ fun _ => annotateVar_mirrors _ _) _
  exact .bind_eq (.bind_eq (annotate_mirrors _ _) fun _ => .same _) fun balance => .same _

/-! ## The table -/

/-- The table depends on the name of the instruction only. -/
theorem typeOperation_isSome {ctx : Context} {stack' : List StackType} {p : String}
    {r : Checked ReturnType} (h : typeOperation ctx i stack p = some r) :
    ∃ r', typeOperation ctx i stack' p = some r' := by
  unfold typeOperation at h
  split at h
  all_goals first | exact ⟨_, rfl⟩ | cases h

/-- **Every operation of the table mirrors itself on a longer stack.** -/
theorem typeOperation_extends {ctx : Context} {p : String}
    (hdug : p = "DUG" → rest = [] ∨ ∀ e n, i.arg 0 = .ok e → natOf e = .ok n → n < stack.length)
    (hemit : p = "EMIT" → rest = [] ∨ (i.args = none → stack ≠ []))
    {r : Checked ReturnType} (h : typeOperation ctx i stack p = some r) :
    ∃ r', typeOperation ctx i (stack ++ rest) p = some r' ∧ Mirrors (Extends rest) r r' := by
  unfold typeOperation at h
  split at h <;> cases h
  · exact ⟨_, rfl, typeDUP_extends⟩
  · exact ⟨_, rfl, typeSWAP_extends⟩
  · exact ⟨_, rfl, typeSOME_extends⟩
  · exact ⟨_, rfl, typeUNIT_extends⟩
  · exact ⟨_, rfl, typePAIR_extends⟩
  · exact ⟨_, rfl, typeUNPAIR_extends⟩
  · exact ⟨_, rfl, typeField_extends false⟩
  · exact ⟨_, rfl, typeField_extends true⟩
  · exact ⟨_, rfl, typeCONS_extends⟩
  · exact ⟨_, rfl, typeMEM_extends⟩
  · exact ⟨_, rfl, typeGET_extends⟩
  · exact ⟨_, rfl, typeUPDATE_extends⟩
  · exact ⟨_, rfl, typeGET_AND_UPDATE_extends⟩
  · exact ⟨_, rfl, typeEXEC_extends⟩
  · exact ⟨_, rfl, typeAPPLY_extends⟩
  · exact ⟨_, rfl, typeFAILWITH_extends ctx⟩
  · exact ⟨_, rfl, typeNEVER_extends⟩
  · exact ⟨_, rfl, typeRENAME_extends⟩
  · exact ⟨_, rfl, typeCONCAT_extends⟩
  · exact ⟨_, rfl, typeSLICE_extends⟩
  · exact ⟨_, rfl, typePACK_extends⟩
  · exact ⟨_, rfl, typeNEG_extends⟩
  · exact ⟨_, rfl, typeNOT_extends⟩
  · exact ⟨_, rfl, typeCOMPARE_extends⟩
  · exact ⟨_, rfl, typeSELF_extends ctx⟩
  · exact ⟨_, rfl, typeTRANSFER_TOKENS_extends⟩
  · exact ⟨_, rfl, typeSET_DELEGATE_extends⟩
  · exact ⟨_, rfl, typeADDRESS_extends⟩
  · exact ⟨_, rfl, typeSELF_ADDRESS_extends ctx⟩
  · exact ⟨_, rfl, typeDROP_extends⟩
  · exact ⟨_, rfl, typeDIG_extends⟩
  · exact ⟨_, rfl, typeDUG_extends (hdug rfl)⟩
  · exact ⟨_, rfl, typeEmpty_extends _⟩
  · exact ⟨_, rfl, typeSide_extends true⟩
  · exact ⟨_, rfl, typeSide_extends false⟩
  · exact ⟨_, rfl, typeEmpty_extends _⟩
  · exact ⟨_, rfl, typeUNPACK_extends⟩
  · exact ⟨_, rfl, typeCONTRACT_extends⟩
  · exact ⟨_, rfl, typeCAST_extends⟩
  · exact ⟨_, rfl, typeEMPTY_SET_extends⟩
  · exact ⟨_, rfl, typeEMPTY_MAP_extends⟩
  · exact ⟨_, rfl, typeEMPTY_BIG_MAP_extends⟩
  · exact ⟨_, rfl, typeTICKET_extends ctx⟩
  · exact ⟨_, rfl, typeJOIN_TICKETS_extends⟩
  · exact ⟨_, rfl, typeSPLIT_TICKET_extends⟩
  · exact ⟨_, rfl, typeREAD_TICKET_extends⟩
  · exact ⟨_, rfl, typePAIRING_CHECK_extends⟩
  · exact ⟨_, rfl, typeSAPLING_EMPTY_STATE_extends⟩
  · exact ⟨_, rfl, typeSAPLING_VERIFY_UPDATE_extends ctx⟩
  · exact ⟨_, rfl, typeVIEW_extends⟩
  · exact ⟨_, rfl, typeEMIT_extends (hemit rfl)⟩

end

end Typechecker
