import Soika.Domain.Trim
import Soika.Grouping.Material

/-! # What grouping ignores

Edits of a raw payload that grouping does not see: line numbers, columns and source
context of frames, and system frames next to in-app ones. Two payloads that an edit
makes equal have one fingerprint.
-/

namespace Soika

namespace Value

def modifyKey (key : String) (f : Value → Value) : Value → Value
  | object members => object (members.map fun m => if m.1 = key then (m.1, f m.2) else m)
  | v => v

def mapElems (f : Value → Value) : Value → Value
  | array elems => array (elems.map f)
  | v => v

def dropKeys (keys : List String) : Value → Value
  | object members => object (members.filter fun m => m.1 ∉ keys)
  | v => v

theorem get_modifyKey (key key' : String) (f : Value → Value) (v : Value) :
    (v.modifyKey key f).get key' = if key' = key then (v.get key').map f else v.get key' := by
  cases v with
  | object members =>
    simp only [modifyKey, get, List.find?_map, Option.map_map]
    have hkey : ((fun m : String × Value => decide (m.1 = key')) ∘
        fun m => if m.1 = key then (m.1, f m.2) else m) = fun m => decide (m.1 = key') := by
      funext m
      by_cases h : m.1 = key <;> simp [h]
    rw [hkey]
    cases hm : members.find? fun m => decide (m.1 = key') with
    | none => simp
    | some m =>
      have hm' : m.1 = key' := by simpa using List.find?_some hm
      by_cases h : key' = key <;> simp [hm', h]
  | _ => simp [modifyKey, get]

theorem get_modifyKey_self (key : String) (f : Value → Value) (v : Value) :
    (v.modifyKey key f).get key = (v.get key).map f := by
  rw [get_modifyKey, if_pos rfl]

theorem get_modifyKey_ne {key key' : String} (h : key' ≠ key) (f : Value → Value) (v : Value) :
    (v.modifyKey key f).get key' = v.get key' := by
  rw [get_modifyKey, if_neg h]

theorem isObject_modifyKey (key : String) (f : Value → Value) (v : Value) :
    (v.modifyKey key f).isObject = v.isObject := by
  cases v <;> rfl

theorem asArray_mapElems (f : Value → Value) (v : Value) :
    (v.mapElems f).asArray = v.asArray.map (List.map f) := by
  cases v <;> rfl

theorem get_dropKeys {keys : List String} {key : String} (h : key ∉ keys) (v : Value) :
    (v.dropKeys keys).get key = v.get key := by
  cases v with
  | object members =>
    simp only [dropKeys, get, List.find?_filter]
    congr 2
    funext m
    by_cases hm : m.1 = key
    · simp [hm, h]
    · simp [hm]
  | _ => rfl

end Value

/-- Edit the stack traces of a payload, wherever an SDK may put them. -/
def onStacktraces (f : Value → Value) (event : Value) : Value :=
  let onValues := Value.modifyKey "values" (Value.mapElems (Value.modifyKey "stacktrace" f))
  ((event.modifyKey "exception" onValues).modifyKey "threads" onValues).modifyKey "stacktrace" f

/-- Line, column and source context of a frame. -/
def lineKeys : List String := ["lineno", "colno", "context_line", "pre_context", "post_context"]

/-- The payload without line numbers, columns and source context in its frames. -/
def withoutLines : Value → Value :=
  onStacktraces (Value.modifyKey "frames" (Value.mapElems (Value.dropKeys lineKeys)))

def keepInApp : Value → Value
  | .array frames =>
    let inApp := frames.filter fun v => (parseFrame v).isInApp
    .array (if inApp.isEmpty then frames else inApp)
  | v => v

def withoutSystemFrames : Value → Value := onStacktraces (Value.modifyKey "frames" keepInApp)

def groupingView (stacktrace : Stacktrace) : Bool × List String :=
  (stacktrace.isEmpty, groupingFrameSignatures stacktrace)

/-- An edit of raw stack traces that grouping does not see. -/
structure Unseen (f : Value → Value) : Prop where
  isObject : ∀ v, (f v).isObject = v.isObject
  view : ∀ v, groupingView (.fromValue (f v)) = groupingView (.fromValue v)

theorem view_withFrames (stacktrace : Option Stacktrace) :
    (withFrames stacktrace).map groupingView =
      (stacktrace.map groupingView).filter fun view => ¬ view.1 := by
  unfold withFrames
  rw [Option.filter_map]
  rfl

theorem view_or (a b : Option Stacktrace) :
    (a.or b).map groupingView = (a.map groupingView).or (b.map groupingView) := Option.map_or

section Unseen

variable {f : Value → Value} (hf : Unseen f) (event : Value)
include hf

theorem view_stacktraceField {v w : Value} (h : v.get "stacktrace" = (w.get "stacktrace").map f) :
    (stacktraceField v).map groupingView = (stacktraceField w).map groupingView := by
  unfold stacktraceField
  rw [h, Option.filter_map, Option.map_map, Option.map_map, Option.map_map]
  have hobj : Value.isObject ∘ f = Value.isObject := funext hf.isObject
  have hview : groupingView ∘ Stacktrace.fromValue ∘ f = groupingView ∘ Stacktrace.fromValue :=
    funext hf.view
  rw [hobj, Function.comp_assoc, hview]

theorem view_stacktraceField_modifyKey (v : Value) :
    (stacktraceField (v.modifyKey "stacktrace" f)).map groupingView =
      (stacktraceField v).map groupingView :=
  view_stacktraceField hf (v.get_modifyKey_self "stacktrace" f)

/-- The first stack trace with frames, of the edited values and of the values themselves. -/
theorem view_findSome (values : List Value) :
    ((values.map (Value.modifyKey "stacktrace" f)).findSome?
        fun v => withFrames (stacktraceField v)).map groupingView =
      (values.findSome? fun v => withFrames (stacktraceField v)).map groupingView := by
  rw [List.findSome?_map, List.map_findSome?, List.map_findSome?]
  congr 1
  funext v
  simp only [Function.comp_apply, view_withFrames, view_stacktraceField_modifyKey hf]

end Unseen

section Fields

variable (f : Value → Value) (event : Value)

theorem get_onStacktraces_stacktrace :
    (onStacktraces f event).get "stacktrace" = (event.get "stacktrace").map f := by
  simp [onStacktraces, Value.get_modifyKey]

theorem get_onStacktraces {key : String}
    (h : key ∉ ["exception", "threads", "stacktrace"]) :
    (onStacktraces f event).get key = event.get key := by
  simp only [List.mem_cons, List.not_mem_nil, or_false, not_or] at h
  simp [onStacktraces, Value.get_modifyKey, h]

theorem valuesField_onStacktraces {key : String} (h : key = "exception" ∨ key = "threads") :
    valuesField (onStacktraces f event) key =
      (valuesField event key).map (List.map (Value.modifyKey "stacktrace" f)) := by
  have hget : (onStacktraces f event).get key = (event.get key).map
      (Value.modifyKey "values" (Value.mapElems (Value.modifyKey "stacktrace" f))) := by
    rcases h with rfl | rfl <;> simp [onStacktraces, Value.get_modifyKey]
  unfold valuesField
  rw [hget]
  cases event.get key with
  | none => rfl
  | some v =>
    simp only [Option.map_some, Option.bind_some, Value.get_modifyKey_self]
    cases v.get "values" with
    | none => rfl
    | some w => exact w.asArray_mapElems _

/-- An edited exception differs in its stack trace only. -/
theorem parseException_modifyKey (v : Value) :
    parseException (v.modifyKey "stacktrace" f) =
      { parseException v with stacktrace := stacktraceField (v.modifyKey "stacktrace" f) } := by
  simp [parseException, stringField, Value.get_modifyKey_ne]

theorem parseExceptions_onStacktraces :
    parseExceptions (onStacktraces f event) =
      ((valuesField event "exception").getD []).map
        fun v => parseException (v.modifyKey "stacktrace" f) := by
  unfold parseExceptions
  rw [valuesField_onStacktraces f event (.inl rfl)]
  cases valuesField event "exception" with
  | none => rfl
  | some values => simp

theorem parseExceptions_eq :
    parseExceptions event = ((valuesField event "exception").getD []).map parseException := by
  unfold parseExceptions
  cases valuesField event "exception" <;> rfl

end Fields

section Unseen

variable {f : Value → Value} (hf : Unseen f) (event : Value)
include hf

theorem view_threadStacktrace :
    (withFrames (threadStacktrace (onStacktraces f event))).map groupingView =
      (withFrames (threadStacktrace event)).map groupingView := by
  unfold threadStacktrace
  rw [valuesField_onStacktraces f event (.inr rfl)]
  cases valuesField event "threads" with
  | none => rfl
  | some values =>
    simp only [Option.map_some, Option.bind_eq_bind, Option.bind_some, List.find?_map]
    have hcrashed : ((fun t : Value => decide ((t.get "crashed").bind Value.asBool = some true)) ∘
        Value.modifyKey "stacktrace" f) =
          fun t => decide ((t.get "crashed").bind Value.asBool = some true) := by
      funext t
      simp [Value.get_modifyKey_ne]
    rw [hcrashed, Option.toList_map, ← List.map_append, view_withFrames, view_withFrames,
      view_findSome hf]

theorem view_resolveStacktrace :
    (resolveStacktrace (onStacktraces f event)
        (parseExceptions (onStacktraces f event))).map groupingView =
      (resolveStacktrace event (parseExceptions event)).map groupingView := by
  rw [parseExceptions_onStacktraces, parseExceptions_eq]
  unfold resolveStacktrace
  simp only [view_or]
  congr 1
  · rw [view_withFrames, view_withFrames, List.getLast?_map, List.getLast?_map]
    cases ((valuesField event "exception").getD []).getLast? with
    | none => rfl
    | some v =>
      simp only [Option.map_some, Option.bind_some]
      rw [show (parseException (v.modifyKey "stacktrace" f)).stacktrace =
        stacktraceField (v.modifyKey "stacktrace" f) from rfl, view_stacktraceField_modifyKey hf]
      rfl
  congr 1
  · have h := view_findSome hf ((valuesField event "exception").getD [])
    rw [List.findSome?_map] at h
    rw [List.findSome?_map, List.findSome?_map]
    exact h
  congr 1
  · exact view_threadStacktrace hf event
  · rw [view_withFrames, view_withFrames,
      view_stacktraceField hf (get_onStacktraces_stacktrace f event)]

end Unseen

/-- Grouping reads the view of a stack trace only. -/
theorem frameComponents_eq (event : NormalizedEvent) :
    frameComponents event = ((event.stacktrace.map groupingView).map Prod.snd).getD [] := by
  unfold frameComponents
  cases event.stacktrace <;> rfl

section Congr

variable {event event' : NormalizedEvent}

theorem defaultMaterial_congr (hty : event.exceptionType = event'.exceptionType)
    (hval : event.exceptionValue = event'.exceptionValue) (hmsg : event.message = event'.message)
    (hst : event.stacktrace.map groupingView = event'.stacktrace.map groupingView) :
    defaultMaterial event = defaultMaterial event' := by
  simp only [defaultMaterial, typeComponents, textComponents, frameComponents_eq, hty, hval,
    hmsg, hst]

theorem hashInput_congr (hdefault : defaultMaterial event = defaultMaterial event')
    (hfp : event.fingerprint = event'.fingerprint) : hashInput event = hashInput event' := by
  simp only [hashInput, customMaterial, expandComponents, NormalizedEvent.hasCustomFingerprint,
    hdefault, hfp]
  rfl

end Congr

theorem fingerprint_onStacktraces {f : Value → Value} (hf : Unseen f) (event : Value) :
    fingerprint (onStacktraces f event) = fingerprint event := by
  have hthrown : (parseExceptions (onStacktraces f event)).getLast? =
      (((valuesField event "exception").getD []).getLast?).map
        fun v => parseException (v.modifyKey "stacktrace" f) := by
    rw [parseExceptions_onStacktraces, List.getLast?_map]
  have hthrown' : (parseExceptions event).getLast? =
      (((valuesField event "exception").getD []).getLast?).map parseException := by
    rw [parseExceptions_eq, List.getLast?_map]
  unfold fingerprint
  rw [fingerprintNormalized_eq, fingerprintNormalized_eq]
  congr 1
  refine hashInput_congr (defaultMaterial_congr ?_ ?_ ?_ (view_resolveStacktrace hf event)) ?_
  · simp only [NormalizedEvent.fromValue, hthrown, hthrown', parseException_modifyKey]
    cases ((valuesField event "exception").getD []).getLast? <;> rfl
  · simp only [NormalizedEvent.fromValue, hthrown, hthrown', parseException_modifyKey]
    cases ((valuesField event "exception").getD []).getLast? <;> rfl
  · simp only [NormalizedEvent.fromValue, parseMessage]
    rw [get_onStacktraces f event (by decide), get_onStacktraces f event (by decide)]
  · simp only [NormalizedEvent.fromValue, stringArray]
    rw [get_onStacktraces f event (by decide)]

theorem fromValue_modifyKey_frames (f : Value → Value) (v : Value) :
    Stacktrace.fromValue (v.modifyKey "frames" f) =
      match ((v.get "frames").map f).bind Value.asArray with
      | some arr => ⟨arr.map parseFrame⟩
      | none => ⟨[]⟩ := by
  have hget := Value.get_modifyKey_self "frames" f v
  cases hv : v.get "frames" with
  | none => simp [Stacktrace.fromValue, hget, hv]
  | some w => cases hw : (f w).asArray <;> simp [Stacktrace.fromValue, hget, hv, hw]

/-- Grouping reads whether a frame is in-app and its signature only. -/
theorem groupingView_map {g g' : Value → Frame} (hin : ∀ v, (g v).isInApp = (g' v).isInApp)
    (hsig : ∀ v, frameSignature (g v) = frameSignature (g' v)) (elems : List Value) :
    groupingView ⟨elems.map g⟩ = groupingView ⟨elems.map g'⟩ := by
  have hin' : Frame.isInApp ∘ g = Frame.isInApp ∘ g' := funext hin
  have hsig' : frameSignature ∘ g = frameSignature ∘ g' := funext hsig
  have happ : (elems.map g).filter Frame.isInApp = (elems.filter (Frame.isInApp ∘ g')).map g := by
    rw [List.filter_map, hin']
  have happ' : (elems.map g').filter Frame.isInApp = (elems.filter (Frame.isInApp ∘ g')).map g' :=
    List.filter_map
  unfold groupingView Stacktrace.isEmpty groupingFrameSignatures Stacktrace.inAppFrames
  simp only [happ, happ', List.isEmpty_map]
  split <;> simp only [List.filterMap_map, hsig']

theorem unseen_lines : Unseen (Value.modifyKey "frames" (Value.mapElems (Value.dropKeys lineKeys))) where
  isObject := Value.isObject_modifyKey _ _
  view v := by
    rw [fromValue_modifyKey_frames]
    unfold Stacktrace.fromValue
    cases v.get "frames" with
    | none => rfl
    | some frames =>
      simp only [Option.map_some, Option.bind_some, Value.asArray_mapElems]
      cases frames.asArray with
      | none => rfl
      | some elems =>
        simp only [Option.map_some, List.map_map]
        refine groupingView_map (fun frame => ?_) (fun frame => ?_) elems
        · have hin : (parseFrame (frame.dropKeys lineKeys)).inApp = (parseFrame frame).inApp :=
            congrArg (Option.bind · Value.asBool) (Value.get_dropKeys (by decide) frame)
          simp only [Function.comp_apply, Frame.isInApp, hin]
        · simp [frameSignature, parseFrame, stringField, Value.get_dropKeys, lineKeys]

theorem unseen_systemFrames : Unseen (Value.modifyKey "frames" keepInApp) where
  isObject := Value.isObject_modifyKey _ _
  view v := by
    rw [fromValue_modifyKey_frames]
    unfold Stacktrace.fromValue
    cases v.get "frames" with
    | none => rfl
    | some frames =>
      cases frames with
      | array elems =>
        simp only [Option.map_some, Option.bind_some, keepInApp, Value.asArray]
        split
        · rfl
        · rename_i hne
          have hfilter : (elems.filter fun v => (parseFrame v).isInApp).map parseFrame =
              (elems.map parseFrame).filter Frame.isInApp := by
            rw [List.filter_map]
            rfl
          have hne' : ((elems.map parseFrame).filter Frame.isInApp).isEmpty = false := by
            rw [← hfilter]
            simpa using hne
          have hsome : (elems.map parseFrame).isEmpty = false := by
            cases elems with
            | nil => simp at hne
            | cons => rfl
          simp only [groupingView, Stacktrace.isEmpty, groupingFrameSignatures,
            Stacktrace.inAppFrames, hfilter, List.filter_filter, Bool.and_self, hne', hsome]
          rfl
      | _ => rfl

def PaddedPlaceholder (component : String) : Prop :=
  ∃ before placeholder after, (∀ c ∈ before, isWhitespace c) ∧ (∀ c ∈ after, isWhitespace c) ∧
    (placeholder = defaultPlaceholder ∨ placeholder = defaultPlaceholderTight) ∧
    component.toList = before ++ placeholder.toList ++ after

theorem isPlaceholder_of_padded {component : String} (h : PaddedPlaceholder component) :
    isPlaceholder component := by
  obtain ⟨before, placeholder, after, hb, ha, hp, hc⟩ := h
  have htrim : trim component = placeholder := by
    have hbody : trimChars placeholder.toList = placeholder.toList := by
      rcases hp with rfl | rfl <;> decide
    show String.ofList (trimChars component.toList) = placeholder
    rw [hc, trimChars_pad hb ha, hbody, String.ofList_toList]
  rcases hp with rfl | rfl <;> simp [isPlaceholder, htrim]

theorem hashInput_lonePlaceholder {event : NormalizedEvent} {component : String}
    (hfp : event.fingerprint = [component]) (h : isPlaceholder component) :
    hashInput event = defaultMaterial event := by
  simp [hashInput, NormalizedEvent.hasCustomFingerprint, hfp, customMaterial, expandComponents, h]

theorem hashInput_noFingerprint {event : NormalizedEvent} (hfp : event.fingerprint = []) :
    hashInput event = defaultMaterial event := by
  simp [hashInput, NormalizedEvent.hasCustomFingerprint, hfp]

theorem hashInput_plainCustom {event : NormalizedEvent} (h : PlainCustom event) :
    hashInput event = (String.singleton separator).intercalate event.fingerprint := by
  have hexpand : expandComponents event = event.fingerprint := by
    unfold expandComponents
    conv_rhs => rw [← List.map_id event.fingerprint]
    refine List.map_congr_left fun component hm => ?_
    simp [h.2 component hm]
  rw [hashInput, if_pos h.1, customMaterial_eq, hexpand]

theorem defaultMaterial_fromValue {v w : Value}
    (h : ∀ key, key ≠ "fingerprint" → v.get key = w.get key) :
    defaultMaterial (.fromValue v) = defaultMaterial (.fromValue w) := by
  have hexc : parseExceptions v = parseExceptions w := by
    simp [parseExceptions, valuesField, h]
  have hst : resolveStacktrace v (parseExceptions v) = resolveStacktrace w (parseExceptions w) := by
    simp [hexc, resolveStacktrace, threadStacktrace, valuesField, stacktraceField, h]
  have hmsg : parseMessage v = parseMessage w := by
    simp [parseMessage, h]
  exact defaultMaterial_congr (by simp only [NormalizedEvent.fromValue, hexc])
    (by simp only [NormalizedEvent.fromValue, hexc]) hmsg
    (congrArg (Option.map groupingView) hst)

/-- What two payloads may differ in without a difference in their fingerprint. -/
structure GroupingIgnores : Prop where
  lines : ∀ v w, withoutLines v = withoutLines w → fingerprint v = fingerprint w
  systemFrames : ∀ v w, withoutSystemFrames v = withoutSystemFrames w →
    fingerprint v = fingerprint w
  lonePlaceholder : ∀ v w component, (∀ key, key ≠ "fingerprint" → v.get key = w.get key) →
    stringArray v "fingerprint" = [] → stringArray w "fingerprint" = [component] →
    PaddedPlaceholder component → fingerprint v = fingerprint w
  allButFingerprint : ∀ v w, stringArray v "fingerprint" = stringArray w "fingerprint" →
    stringArray v "fingerprint" ≠ [] →
    (∀ component ∈ stringArray v "fingerprint", ¬ isPlaceholder component) →
    fingerprint v = fingerprint w

theorem fingerprint_eq_of_hashInput {v w : Value}
    (h : hashInput (.fromValue v) = hashInput (.fromValue w)) : fingerprint v = fingerprint w := by
  unfold fingerprint
  rw [fingerprintNormalized_eq, h, ← fingerprintNormalized_eq]

theorem grouping_ignores : GroupingIgnores where
  lines v w h := by
    rw [← fingerprint_onStacktraces unseen_lines v, ← fingerprint_onStacktraces unseen_lines w]
    exact congrArg fingerprint h
  systemFrames v w h := by
    rw [← fingerprint_onStacktraces unseen_systemFrames v,
      ← fingerprint_onStacktraces unseen_systemFrames w]
    exact congrArg fingerprint h
  lonePlaceholder v w component h hv hw hp := by
    apply fingerprint_eq_of_hashInput
    rw [hashInput_noFingerprint hv, hashInput_lonePlaceholder hw (isPlaceholder_of_padded hp),
      defaultMaterial_fromValue h]
  allButFingerprint v w h hne hplain := by
    have hv : PlainCustom (.fromValue v) :=
      ⟨by simpa [NormalizedEvent.hasCustomFingerprint, NormalizedEvent.fromValue] using hne, hplain⟩
    have hw : PlainCustom (.fromValue w) := by
      rw [h] at hne hplain
      exact ⟨by simpa [NormalizedEvent.hasCustomFingerprint, NormalizedEvent.fromValue] using hne,
        hplain⟩
    apply fingerprint_eq_of_hashInput
    rw [hashInput_plainCustom hv, hashInput_plainCustom hw]
    exact congrArg _ h

end Soika
