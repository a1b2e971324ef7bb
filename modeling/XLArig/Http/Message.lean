import XLArig.Http

/-!
# XLArig.Http.Message

What a well-formed message says, the fragments in which `llhttp` delivers it, and what the
callbacks make of them: they join what is taken apart, except the URL, of which they keep the
last fragment (`callbacks_delivered`, `data_delivered`).
-/

namespace XLArig

namespace Http

/-! ## Messages -/

/-- What a well-formed message says; a response has no URL. -/
structure Message where
  type : HttpType
  method : Nat
  statusCode : Nat
  url : Bytes
  headers : List (Bytes × Bytes)
  body : Bytes
  trailers : List (Bytes × Bytes)

/-- A part of the message comes as one or more fragments. -/
def Fragments (f : Bytes → Event) (text : Bytes) (es : List Event) : Prop :=
  ∃ parts, parts ≠ [] ∧ es = parts.map f ∧ parts.flatten = text

theorem Fragments.one (f : Bytes → Event) (text : Bytes) : Fragments f text [f text] :=
  ⟨[text], by simp, rfl, by simp⟩

inductive HeaderFragments : List (Bytes × Bytes) → List Event → Prop
  | nil : HeaderFragments [] []
  | cons {name value : Bytes} {headers : List (Bytes × Bytes)} {fs vs es : List Event} :
      Fragments .headerField name fs → Fragments .headerValue value vs →
        HeaderFragments headers es → HeaderFragments ((name, value) :: headers) (fs ++ vs ++ es)

/-- The callbacks for the whole message, up to `on_message_complete`. -/
def Message.Delivered (m : Message) (es : List Event) : Prop :=
  ∃ u h b t,
    (if m.type = .HTTP_REQUEST then Fragments .url m.url u else u = []) ∧
    HeaderFragments m.headers h ∧
    (∃ parts : List Bytes, b = parts.map .body ∧ parts.flatten = m.body) ∧
    HeaderFragments m.trailers t ∧
    es = u ++ (h ++ .headersComplete m.method m.statusCode :: (b ++ t))

def headerEvents (headers : List (Bytes × Bytes)) : List Event :=
  headers.flatMap fun header => [.headerField header.1, .headerValue header.2]

/-- The callbacks for a message in one piece, without its URL. -/
def Message.rest (m : Message) : List Event :=
  headerEvents m.headers ++
    .headersComplete m.method m.statusCode :: .body m.body :: headerEvents m.trailers

def Event.isUrl : Event → Bool
  | .url _ => true
  | _ => false

/-- The fragments of the URL. -/
def urls (es : List Event) : List Bytes := es.filterMap fun
  | .url text => some text
  | _ => none

@[simp] theorem urls_append (es es' : List Event) : urls (es ++ es') = urls es ++ urls es' :=
  List.filterMap_append

@[simp] theorem urls_map_url (parts : List Bytes) : urls (parts.map .url) = parts := by
  simp [urls, List.filterMap_map]

theorem urls_map {f : Bytes → Event} (hf : ∀ text, urls [f text] = []) (parts : List Bytes) :
    urls (parts.map f) = [] := by
  induction parts with
  | nil => rfl
  | cons part parts ih =>
      rw [List.map_cons, ← List.singleton_append, urls_append, hf, ih, List.append_nil]

theorem urls_headers {headers : List (Bytes × Bytes)} {es : List Event}
    (h : HeaderFragments headers es) : urls es = [] := by
  induction h with
  | nil => rfl
  | cons hfield hvalue _ ih =>
      obtain ⟨fields, -, rfl, -⟩ := hfield
      obtain ⟨values, -, rfl, -⟩ := hvalue
      rw [urls_append, urls_append, urls_map (fun _ => rfl), urls_map (fun _ => rfl), ih]
      rfl

/-- There is no URL behind the first line. -/
theorem urls_after {headers trailers : List (Bytes × Bytes)} {h t : List Event}
    (hheaders : HeaderFragments headers h) (htrailers : HeaderFragments trailers t)
    (method statusCode : Nat) (parts : List Bytes) :
    urls (h ++ .headersComplete method statusCode :: (parts.map .body ++ t)) = [] := by
  rw [urls_append, urls_headers hheaders, ← List.singleton_append, urls_append, urls_append,
    urls_map (fun _ => rfl), urls_headers htrailers]
  rfl

/-! ## Fragments and the callbacks -/

namespace HttpContext

variable {s : HttpContext}

/-- The context with another URL. -/
def setUrl (s : HttpContext) (text : Option Bytes) : HttpContext :=
  match text with
  | some text => { s with data.url := text }
  | none => s

theorem callbacks_headerField_append (hs : s.wasHeaderValue = false) (parts : List Bytes) :
    s.callbacks (parts.map .headerField) =
      { s with lastHeaderField := s.lastHeaderField ++ parts.flatten } := by
  induction parts generalizing s with
  | nil => simp
  | cons part parts ih => simp [callback, onHeaderField, hs, ih]

theorem callbacks_headerField {text : Bytes} {es : List Event}
    (h : Fragments .headerField text es) : s.callbacks es = s.onHeaderField text := by
  obtain ⟨parts, hne, rfl, rfl⟩ := h
  obtain ⟨part, parts, rfl⟩ := List.exists_cons_of_ne_nil hne
  have hnext : (s.onHeaderField part).wasHeaderValue = false := by
    unfold onHeaderField
    split_ifs with hwas
    · rfl
    · simpa using hwas
  rw [List.map_cons, callbacks_cons, callback, callbacks_headerField_append hnext]
  unfold onHeaderField
  split_ifs <;> simp

theorem callbacks_headerValue_append (hs : s.wasHeaderValue = true) (parts : List Bytes) :
    s.callbacks (parts.map .headerValue) =
      { s with lastHeaderValue := s.lastHeaderValue ++ parts.flatten } := by
  induction parts generalizing s with
  | nil => simp
  | cons part parts ih => simp [callback, onHeaderValue, hs, ih]

theorem callbacks_headerValue {text : Bytes} {es : List Event}
    (h : Fragments .headerValue text es) : s.callbacks es = s.onHeaderValue text := by
  obtain ⟨parts, hne, rfl, rfl⟩ := h
  obtain ⟨part, parts, rfl⟩ := List.exists_cons_of_ne_nil hne
  have hnext : (s.onHeaderValue part).wasHeaderValue = true := by
    unfold onHeaderValue
    split_ifs with hwas
    · exact hwas
    · rfl
  rw [List.map_cons, callbacks_cons, callback, callbacks_headerValue_append hnext]
  unfold onHeaderValue
  split_ifs <;> simp

theorem callbacks_body (parts : List Bytes) :
    s.callbacks (parts.map .body) = s.callback (.body parts.flatten) := by
  induction parts generalizing s with
  | nil => simp [callback]
  | cons part parts ih => simp [callback, ih]

theorem callbacks_headers {headers : List (Bytes × Bytes)} {es : List Event}
    (h : HeaderFragments headers es) :
    s.callbacks es = s.callbacks (headerEvents headers) := by
  induction h generalizing s with
  | nil => rfl
  | cons hfield hvalue _ ih =>
      rw [List.append_assoc, callbacks_append, callbacks_append, callbacks_headerField hfield,
        callbacks_headerValue hvalue, ih]
      rfl

theorem callbacks_url (parts : List Bytes) :
    s.callbacks (parts.map .url) = s.setUrl parts.getLast? := by
  induction parts generalizing s with
  | nil => rfl
  | cons part parts ih =>
      rw [List.map_cons, callbacks_cons, ih]
      cases parts with
      | nil => rfl
      | cons next parts =>
          have hlast : (next :: parts).getLast? = some ((next :: parts).getLast (by simp)) :=
            List.getLast?_eq_some_getLast (by simp)
          simp [setUrl, callback, hlast]

/-- The fragments of a message do what the message in one piece does, with the last fragment
for its URL. -/
theorem callbacks_delivered {m : Message} {es : List Event} (h : m.Delivered es) :
    s.callbacks es = (s.setUrl (urls es).getLast?).callbacks m.rest := by
  obtain ⟨u, h, b, t, hurl, hheaders, ⟨parts, rfl, hbody⟩, htrailers, rfl⟩ := h
  have hu : s.callbacks u = s.setUrl (urls u).getLast? := by
    split_ifs at hurl with htype
    · obtain ⟨texts, -, rfl, -⟩ := hurl
      rw [callbacks_url, urls_map_url]
    · rw [hurl]
      rfl
  rw [urls_append, urls_after hheaders htrailers, List.append_nil, callbacks_append, hu,
    Message.rest, callbacks_append,
    callbacks_append, callbacks_headers hheaders, callbacks_cons, callbacks_cons, callbacks_append,
    callbacks_body, callbacks_headers htrailers, hbody, callbacks_cons]

theorem callback_setUrl {e : Event} {text : Bytes} (hurl : e.isUrl = false)
    (he : e ≠ .messageComplete) :
    (s.setUrl (some text)).callback e = (s.callback e).setUrl (some text) := by
  have hcommit : ∀ s : HttpContext,
      (s.setUrl (some text)).commitHeader = s.commitHeader.setUrl (some text) := by
    intro s
    by_cases hfield : s.lastHeaderField = []
    · simp [commitHeader, setUrl, hfield]
    · simp [commitHeader, setHeader, setUrl, hfield]
  cases e with
  | url text => cases hurl
  | headerField text =>
      cases hwas : s.wasHeaderValue with
      | true =>
          have := hcommit s
          simp_all [callback, onHeaderField, setUrl]
      | false => simp [callback, onHeaderField, setUrl, hwas]
  | headerValue text =>
      cases hwas : s.wasHeaderValue <;> simp [callback, onHeaderValue, setUrl, hwas]
  | headersComplete method statusCode =>
      by_cases htype : s.type = .HTTP_REQUEST
      · have := hcommit { s with data.status := statusCode, data.method := method }
        simp_all [callback, onHeadersComplete, setUrl]
      · have := hcommit { s with data.status := statusCode }
        simp_all [callback, onHeadersComplete, setUrl]
  | body text => rfl
  | messageComplete => exact absurd rfl he

/-- Nothing but its own callback reads or changes the URL, until the listener gets it. -/
theorem callbacks_setUrl {es : List Event} {text : Option Bytes} (hurls : urls es = [])
    (hes : .messageComplete ∉ es) :
    (s.setUrl text).callbacks es = (s.callbacks es).setUrl text := by
  cases text with
  | none => rfl
  | some text =>
      induction es generalizing s with
      | nil => rfl
      | cons e es ih =>
          rw [← List.singleton_append, urls_append, List.append_eq_nil_iff] at hurls
          have hurl : e.isUrl = false := by
            cases e with
            | url text => cases hurls.1
            | _ => rfl
          have he : e ≠ .messageComplete := fun h => hes (h ▸ List.mem_cons_self)
          rw [callbacks_cons, callbacks_cons, callback_setUrl hurl he,
            ih hurls.2 fun h => hes (List.mem_cons_of_mem _ h)]

/-- Only the end of a message reaches the listener. -/
theorem callback_listener {e : Event} (he : e ≠ .messageComplete) :
    (s.callback e).listener = s.listener ∧ (s.callback e).received = s.received := by
  cases e with
  | url text => exact ⟨rfl, rfl⟩
  | headerField text =>
      simp only [callback, onHeaderField, commitHeader]
      split_ifs <;> exact ⟨rfl, rfl⟩
  | headerValue text =>
      simp only [callback, onHeaderValue]
      split_ifs <;> exact ⟨rfl, rfl⟩
  | headersComplete method statusCode =>
      simp only [callback, onHeadersComplete, commitHeader]
      split_ifs <;> exact ⟨rfl, rfl⟩
  | body text => exact ⟨rfl, rfl⟩
  | messageComplete => exact absurd rfl he

theorem callbacks_listener {es : List Event} (hes : .messageComplete ∉ es) :
    (s.callbacks es).listener = s.listener ∧ (s.callbacks es).received = s.received := by
  induction es generalizing s with
  | nil => exact ⟨rfl, rfl⟩
  | cons e es ih =>
      have he : e ≠ .messageComplete := fun h => hes (h ▸ List.mem_cons_self)
      have hstep := callback_listener (s := s) he
      have hrest := ih (s := s.callback e) fun h => hes (List.mem_cons_of_mem _ h)
      exact ⟨hrest.1.trans hstep.1, hrest.2.trans hstep.2⟩

theorem callback_type (e : Event) : (s.callback e).type = s.type := by
  cases e with
  | headerField text =>
      simp only [callback, onHeaderField, commitHeader]
      split_ifs <;> rfl
  | headerValue text =>
      simp only [callback, onHeaderValue]
      split_ifs <;> rfl
  | headersComplete method statusCode =>
      simp only [callback, onHeadersComplete, commitHeader]
      split_ifs <;> rfl
  | messageComplete =>
      simp only [callback, onMessageComplete]
      split_ifs <;> rfl
  | _ => rfl

theorem callbacks_type (es : List Event) : (s.callbacks es).type = s.type := by
  induction es generalizing s with
  | nil => rfl
  | cons e es ih => rw [callbacks_cons, ih, callback_type]

/-- What was handed over stays, and a listener that is gone gets no more. -/
def Grows (s s' : HttpContext) : Prop :=
  s.received <+: s'.received ∧
    (s.listener = false → s'.listener = false ∧ s'.received = s.received)

theorem Grows.refl (s : HttpContext) : s.Grows s := ⟨List.prefix_refl _, fun h => ⟨h, rfl⟩⟩

theorem Grows.trans {s s' s'' : HttpContext} (h : s.Grows s') (h' : s'.Grows s'') :
    s.Grows s'' := by
  refine ⟨h.1.trans h'.1, fun hs => ?_⟩
  obtain ⟨hlistener, hreceived⟩ := h.2 hs
  obtain ⟨hlistener', hreceived'⟩ := h'.2 hlistener
  exact ⟨hlistener', hreceived'.trans hreceived⟩

theorem grows_callback (s : HttpContext) (e : Event) : s.Grows (s.callback e) := by
  by_cases he : e = .messageComplete
  · subst he
    cases hs : s.listener <;> simp [Grows, callback, onMessageComplete, onHttpData, hs]
  · obtain ⟨hlistener, hreceived⟩ := callback_listener (s := s) he
    exact ⟨by rw [hreceived], fun hs => ⟨hlistener.trans hs, hreceived⟩⟩

theorem grows_callbacks (s : HttpContext) (es : List Event) : s.Grows (s.callbacks es) := by
  induction es generalizing s with
  | nil => exact Grows.refl s
  | cons e es ih => exact (grows_callback s e).trans (ih _)

/-- A complete message is handed over once, and the listener is gone. -/
theorem callbacks_complete {es : List Event} (hs : s.listener = true)
    (hes : .messageComplete ∉ es) (later : List Event) :
    (s.callbacks (es ++ .messageComplete :: later)).listener = false ∧
      (s.callbacks (es ++ .messageComplete :: later)).received =
        s.received ++ [(s.callbacks es).data] := by
  obtain ⟨hlistener, hreceived⟩ := callbacks_listener (s := s) hes
  rw [callbacks_append, callbacks_cons]
  have hcomplete : (s.callbacks es).callback .messageComplete =
      { (s.callbacks es).onHttpData with listener := false } := by
    simp [callback, onMessageComplete, hlistener, hs]
  rw [hcomplete]
  have hgone := (grows_callbacks { (s.callbacks es).onHttpData with listener := false } later).2 rfl
  refine ⟨hgone.1, hgone.2.trans ?_⟩
  rw [← hreceived]
  rfl

end HttpContext

/-! ## What is handed over -/

section

variable {m : Message} {es : List Event}

theorem map_ne_complete {f : Bytes → Event} (hf : ∀ text, f text ≠ .messageComplete)
    (parts : List Bytes) : .messageComplete ∉ parts.map f := fun h => by
  obtain ⟨part, -, hpart⟩ := List.mem_map.mp h
  exact hf part hpart

theorem HeaderFragments.ne_complete {headers : List (Bytes × Bytes)}
    (h : HeaderFragments headers es) : .messageComplete ∉ es := by
  induction h with
  | nil => simp
  | cons hfield hvalue _ ih =>
      obtain ⟨fields, -, rfl, -⟩ := hfield
      obtain ⟨values, -, rfl, -⟩ := hvalue
      have hfields := map_ne_complete (f := .headerField) (fun _ => nofun) fields
      have hvalues := map_ne_complete (f := .headerValue) (fun _ => nofun) values
      simp only [List.mem_append, not_or]
      exact ⟨⟨hfields, hvalues⟩, ih⟩

/-- The callbacks before the end of a message do not end it. -/
theorem Message.Delivered.ne_complete (h : m.Delivered es) : .messageComplete ∉ es := by
  obtain ⟨u, h, b, t, hurl, hheaders, ⟨parts, rfl, -⟩, htrailers, rfl⟩ := h
  have hu : .messageComplete ∉ u := by
    split_ifs at hurl
    · obtain ⟨texts, -, rfl, -⟩ := hurl
      exact map_ne_complete (f := .url) (fun _ => nofun) texts
    · simp [hurl]
  have hbody := map_ne_complete (f := .body) (fun _ => nofun) parts
  have hheaders := hheaders.ne_complete
  have htrailers := htrailers.ne_complete
  simp_all

theorem ne_complete_rest (m : Message) : .messageComplete ∉ m.rest := by
  simp [Message.rest, headerEvents]

theorem urls_rest (m : Message) : urls m.rest = [] := by
  have hheaders : ∀ headers, urls (headerEvents headers) = [] := by
    intro headers
    induction headers with
    | nil => rfl
    | cons header headers ih =>
        rw [headerEvents, List.flatMap_cons, urls_append, ← headerEvents, ih]
        rfl
  rw [Message.rest, urls_append, hheaders]
  exact hheaders m.trailers

/-- The fragments of the URL of a request, or none. -/
theorem Message.Delivered.urls (h : m.Delivered es) :
    if m.type = .HTTP_REQUEST then urls es ≠ [] ∧ (urls es).flatten = m.url else urls es = [] := by
  obtain ⟨u, h, b, t, hurl, hheaders, ⟨parts, rfl, -⟩, htrailers, rfl⟩ := h
  rw [urls_append, urls_after hheaders htrailers, List.append_nil]
  split_ifs at hurl ⊢ with htype
  · obtain ⟨texts, hne, rfl, hflatten⟩ := hurl
    rw [urls_map_url]
    exact ⟨hne, hflatten⟩
  · rw [hurl]
    rfl

/-- What the listener gets, but for the URL. -/
def Message.handed (m : Message) (s : HttpContext) : HttpData := (s.callbacks m.rest).data

theorem data_delivered (s : HttpContext) (h : m.Delivered es) :
    (s.callbacks es).data =
      match (urls es).getLast? with
      | some text => { m.handed s with url := text }
      | none => m.handed s := by
  rw [HttpContext.callbacks_delivered h,
    HttpContext.callbacks_setUrl (urls_rest m) (ne_complete_rest m)]
  cases (urls es).getLast? <;> rfl

/-- A chunk that holds the message hands it over with its whole URL. -/
theorem data_uncut (s : HttpContext) (h : m.Delivered es) (huncut : (urls es).length ≤ 1) :
    (s.callbacks es).data =
      if m.type = .HTTP_REQUEST then { m.handed s with url := m.url } else m.handed s := by
  have hurls := h.urls
  rw [data_delivered s h]
  split_ifs at hurls ⊢ with htype
  · obtain ⟨hne, hflatten⟩ := hurls
    obtain ⟨text, htext⟩ : ∃ text, urls es = [text] := by
      have hpos : 0 < (urls es).length := List.length_pos_of_ne_nil hne
      exact List.length_eq_one_iff.mp (by omega)
    rw [htext] at hflatten ⊢
    simpa using hflatten
  · rw [hurls]
    rfl

theorem callback_status (s : HttpContext) {e : Event}
    (he : ∀ method code, e ≠ .headersComplete method code) :
    (s.callback e).data.status = s.data.status := by
  cases e with
  | headerField text =>
      simp only [HttpContext.callback, HttpContext.onHeaderField, HttpContext.commitHeader]
      split_ifs <;> rfl
  | headerValue text =>
      simp only [HttpContext.callback, HttpContext.onHeaderValue]
      split_ifs <;> rfl
  | headersComplete method code => exact absurd rfl (he method code)
  | messageComplete =>
      simp only [HttpContext.callback, HttpContext.onMessageComplete]
      split_ifs <;> rfl
  | _ => rfl

theorem callbacks_status (s : HttpContext) {es : List Event}
    (hes : ∀ method code, .headersComplete method code ∉ es) :
    (s.callbacks es).data.status = s.data.status := by
  induction es generalizing s with
  | nil => rfl
  | cons e es ih =>
      have he : ∀ method code, e ≠ .headersComplete method code := fun method code h =>
        hes method code (h ▸ List.mem_cons_self)
      rw [HttpContext.callbacks_cons, ih _ fun method code h =>
        hes method code (List.mem_cons_of_mem _ h), callback_status s he]

/-- The status that is handed over is that of the message. -/
theorem handed_status (m : Message) (s : HttpContext) : (m.handed s).status = m.statusCode := by
  have hheaders : ∀ headers method code, .headersComplete method code ∉ headerEvents headers := by
    simp [headerEvents]
  have hcomplete : ∀ s : HttpContext,
      (s.callback (.headersComplete m.method m.statusCode)).data.status = m.statusCode := by
    intro s
    simp only [HttpContext.callback, HttpContext.onHeadersComplete, HttpContext.commitHeader]
    split_ifs <;> rfl
  have hafter : ∀ method code, .headersComplete method code ∉
      .body m.body :: headerEvents m.trailers := by
    simp [headerEvents]
  rw [Message.handed, Message.rest, HttpContext.callbacks_append, HttpContext.callbacks_cons,
    callbacks_status _ hafter, hcomplete]

end

end Http

end XLArig
