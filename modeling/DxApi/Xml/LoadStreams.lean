import DxApi.Xml.StreamOptions

/-!
# The streams of a response

A response lists the keys of the streams in one element and their options in another one. The first key
belongs to the first options, and so on; a response with more of the one than of the other is refused.
-/

namespace DxApi.Xml

open Net Request CString

structure StreamInfo where
  key : CString
  options : StreamOptions

/-- The loop over the keys. -/
def assignKeys : List StreamOptions → List XMLElement → Option (List StreamInfo)
  | [], [] => some []
  | [], _ :: _ => none
  | _ :: _, [] => none
  | options :: streams, e :: elements => do
    let key ← e.text
    return ⟨stringOf key, options⟩ :: (← assignKeys streams elements)

/-- `LoadStreamsRequest::getStreams`, with the elements of a document; `none` is the result `false`. -/
def getStreams (response : List XMLElement) : Option (List StreamInfo) := do
  let rootElement ← response.head?
  if rootElement.name = text "loadStreamsResponse" then
    let streamsElement ← rootElement.firstChildElement (text "streams")
    let optionsElement ← rootElement.firstChildElement (text "options")
    let streams ← (optionsElement.elementsFrom (text "item")).mapM fun e ↦ StreamOptions.fromXML e .default
    assignKeys streams (streamsElement.elementsFrom (text "item"))
  else
    none

/-- A key has a text, and there are as many keys as options. -/
theorem assignKeys_eq_some_iff {options : List StreamOptions} {elements : List XMLElement} {streams : List StreamInfo} :
    assignKeys options elements = some streams ↔ options = streams.map StreamInfo.options ∧
      List.Forall₂ (fun e stream ↦ e.text.map stringOf = some stream.key) elements streams := by
  induction options, elements using assignKeys.induct generalizing streams with
  | case1 =>
    rw [assignKeys, Option.some.injEq]
    constructor
    · rintro rfl
      exact ⟨rfl, .nil⟩
    · rintro ⟨-, hkeys⟩
      cases hkeys
      rfl
  | case2 e elements =>
    rw [assignKeys]
    constructor
    · exact fun h ↦ nomatch h
    · rintro ⟨hoptions, hkeys⟩
      cases hkeys
      cases hoptions
  | case3 first options =>
    rw [assignKeys]
    constructor
    · exact fun h ↦ nomatch h
    · rintro ⟨hoptions, hkeys⟩
      cases hkeys
      cases hoptions
  | case4 first options e elements ih =>
    simp only [assignKeys, Option.bind_eq_bind, Option.bind_eq_some_iff, Option.pure_def, Option.some.injEq]
    constructor
    · rintro ⟨key, hkey, rest, hrest, rfl⟩
      obtain ⟨hoptions, hkeys⟩ := ih.mp hrest
      refine ⟨congrArg (List.cons first) hoptions, .cons ?_ hkeys⟩
      rw [hkey]
      rfl
    · rintro ⟨hoptions, hkeys⟩
      cases hkeys with
      | cons hfirst hkeys =>
        rename_i stream streams
        rw [List.map_cons, List.cons.injEq] at hoptions
        obtain ⟨key, hkey, hstring⟩ := Option.map_eq_some_iff.mp hfirst
        refine ⟨key, hkey, streams, ih.mpr ⟨hoptions.2, hkeys⟩, ?_⟩
        rw [hstring, hoptions.1]

end DxApi.Xml
