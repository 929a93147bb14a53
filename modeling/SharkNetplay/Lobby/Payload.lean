import Mathlib.Data.List.TakeWhile
import SharkNetplay.Lib.Dict
import SharkNetplay.Lib.Json

/-!
# The body of a lobby POST

`render_json` with its escaping buffers, and the payload dictionary the Python publisher
gives to `json.dumps`. The two texts are the same bytes exactly when no configured
string contains DEL, which `json_esc` copies and `ensure_ascii` escapes.

## Implementation notes

A C string is the bytes before its NUL. `%d` and `int.__repr__` are one function,
`Json.decimal`, and so are `%04x` and `{0:04x}`.
-/

namespace SharkNetplay.Lobby

open Lib Lib.Json

@[simp] def strMax : Nat := 256
@[simp] def regionMax : Nat := 64
@[simp] def jsonMax : Nat := 4096

/-- A string `copy_ascii` accepted for a buffer of `sz` bytes. -/
structure Copied (sz : Nat) where
  bytes : Text
  short : bytes.length < sz
  ascii : ∀ b ∈ bytes, 0 < b ∧ b ≤ 0x7F

/-- `copy_ascii` of the string at `src`. -/
def copyAscii (sz : Nat) (src : Text) : Option (Copied sz) :=
  let str := src.takeWhile (· != 0)
  if h : str.length < sz ∧ ∀ b ∈ str, b ≤ 0x7F then
    some ⟨str, h.1, fun b hb => ⟨Nat.pos_of_ne_zero (by
      have hne := List.mem_takeWhile_imp hb
      simpa using hne), h.2 b hb⟩⟩
  else none

/-- The fields of `struct lobby` a POST shows. -/
structure Entry where
  game : Copied strMax
  server : Copied strMax
  region : Copied regionMax
  serverurl : Copied strMax
  clientUrl : Copied strMax
  appkey : Int
  maxplayers : Int
  curplayers : Int
  offline : Bool

/-- `lobby_start`, the entry it sets up. -/
def lobbyStart (serverurl clientUrl : Text) (appkey : Int) (region gameName serverName : Text)
    (maxplayers : Int) : Option Entry := do
  let serverurl ← copyAscii strMax serverurl
  let clientUrl ← copyAscii strMax clientUrl
  let game ← copyAscii strMax gameName
  let server ← copyAscii strMax serverName
  let region ← copyAscii regionMax region
  some ⟨game, server, region, serverurl, clientUrl, appkey, maxplayers, 0, false⟩

/-! ## `json_esc` and `render_json` -/

/-- The switch of `json_esc`: what is written for a byte. -/
def escByte (p : Nat) : Text :=
  match shortEscape p with
  | some rep => rep
  | none => if p < 0x20 then uEscape p else [p]

/-- The loop of `json_esc`, `o` bytes being in `dst`; `none` when the buffer is too small. -/
def jsonEscFrom (sz : Nat) : Text → Text → Option Text
  | dst, [] => if sz ≤ dst.length then none else some dst
  | dst, p :: src =>
    let rep := escByte p
    if sz ≤ dst.length + rep.length then none else jsonEscFrom sz (dst ++ rep) src

/-- `json_esc` into a buffer of `sz` bytes. -/
def jsonEsc (sz : Nat) (src : Text) : Option Text := jsonEscFrom sz [] src

/-- The `snprintf` of `render_json`, before it is cut to the buffer. -/
def formatJson (l : Entry) (g s r su cu : Text) : Text :=
  text "\x7b\"game\": \"" ++ g ++ text "\", \"appkey\": " ++ decimal l.appkey ++
    text ", \"server\": \"" ++ s ++ text "\", \"region\": \"" ++ r ++
    text "\", \"serverurl\": \"" ++ su ++ text "\", \"status\": \"" ++
    (if l.offline then text "offline" else text "online") ++
    text "\", \"maxplayers\": " ++ decimal l.maxplayers ++ text ", \"curplayers\": " ++
    decimal l.curplayers ++ text ", \"clients\": [\x7b\"platform\": \"intv\", \"url\": \"" ++ cu ++
    text "\"\x7d]\x7d"

/-- `render_json` into a buffer of `sz` bytes. -/
def renderJson (l : Entry) (sz : Nat) : Option Text := do
  let g ← jsonEsc (strMax * 6) l.game.bytes
  let s ← jsonEsc (strMax * 6) l.server.bytes
  let r ← jsonEsc (regionMax * 6) l.region.bytes
  let su ← jsonEsc (strMax * 6) l.serverurl.bytes
  let cu ← jsonEsc (strMax * 6) l.clientUrl.bytes
  let body := formatJson l g s r su cu
  if sz ≤ body.length then none else some body

/-! ## The payload dictionary -/

/-- `LobbyPublisher.__init__`: the payload, with the entry's values. -/
def payload (l : Entry) : List (Text × Value) :=
  [(text "game", .str l.game.bytes),
    (text "appkey", .int l.appkey),
    (text "server", .str l.server.bytes),
    (text "region", .str l.region.bytes),
    (text "serverurl", .str l.serverurl.bytes),
    (text "status", .str (if l.offline then text "offline" else text "online")),
    (text "maxplayers", .int l.maxplayers),
    (text "curplayers", .int l.curplayers),
    (text "clients", .arr [.obj [(text "platform", .str (text "intv")),
      (text "url", .str l.clientUrl.bytes)]])]

/-- `self.payload["curplayers"] = curplayers` keeps the members in place. -/
theorem payload_update (l : Entry) (n : Int) :
    Dict.assign (text "curplayers") (.int n) (payload l) = payload { l with curplayers := n } :=
  rfl

/-- `self.payload["status"] = "offline"` keeps the members in place. -/
theorem payload_shutdown (l : Entry) :
    Dict.assign (text "status") (.str (text "offline")) (payload l) =
      payload { l with offline := true } := rfl

/-! ## The escaping buffers -/

theorem escByte_length (p : Nat) : (escByte p).length ≤ 6 := by
  unfold escByte
  cases hshort : shortEscape p with
  | some rep =>
      unfold shortEscape at hshort
      split at hshort
      all_goals first
        | (cases hshort; decide)
        | exact absurd hshort (by simp)
  | none =>
      dsimp only
      split
      · exact Nat.le_refl 6
      · exact (by decide : 1 ≤ 6)

theorem jsonEscFrom_eq {sz : Nat} {dst src : Text} (h : dst.length + src.length * 6 < sz) :
    jsonEscFrom sz dst src = some (dst ++ src.flatMap escByte) := by
  induction src generalizing dst with
  | nil =>
      rw [List.length_nil] at h
      rw [jsonEscFrom, if_neg (by omega), List.flatMap_nil, List.append_nil]
  | cons p src ih =>
      have hp := escByte_length p
      rw [List.length_cons] at h
      unfold jsonEscFrom
      dsimp only
      rw [if_neg (by omega), ih (by rw [List.length_append]; omega), List.flatMap_cons,
        List.append_assoc]

/-- A buffer of six bytes a character never runs out. -/
theorem jsonEsc_eq {sz : Nat} (s : Copied sz) :
    jsonEsc (sz * 6) s.bytes = some (s.bytes.flatMap escByte) := by
  have hshort := s.short
  apply jsonEscFrom_eq
  rw [List.length_nil]
  omega

/-- No `json_esc` call of `render_json` runs out of its buffer. -/
def EscapesFit (l : Entry) : Prop :=
  jsonEsc (strMax * 6) l.game.bytes ≠ none ∧ jsonEsc (strMax * 6) l.server.bytes ≠ none ∧
    jsonEsc (regionMax * 6) l.region.bytes ≠ none ∧
    jsonEsc (strMax * 6) l.serverurl.bytes ≠ none ∧
    jsonEsc (strMax * 6) l.clientUrl.bytes ≠ none

theorem escapesFit (l : Entry) : EscapesFit l := by
  have hfit : ∀ {sz : Nat} (s : Copied sz), jsonEsc (sz * 6) s.bytes ≠ none := by
    intro sz s
    rw [jsonEsc_eq]
    exact Option.some_ne_none _
  exact ⟨hfit l.game, hfit l.server, hfit l.region, hfit l.serverurl, hfit l.clientUrl⟩

/-- The whole text of an entry. -/
def rendered (l : Entry) : Text :=
  formatJson l (l.game.bytes.flatMap escByte) (l.server.bytes.flatMap escByte)
    (l.region.bytes.flatMap escByte) (l.serverurl.bytes.flatMap escByte)
    (l.clientUrl.bytes.flatMap escByte)

theorem renderJson_eq (l : Entry) (sz : Nat) :
    renderJson l sz = if sz ≤ (rendered l).length then none else some (rendered l) := by
  unfold renderJson
  rw [jsonEsc_eq, jsonEsc_eq, jsonEsc_eq, jsonEsc_eq, jsonEsc_eq]
  rfl

/-! ## Byte by byte -/

/-- Below DEL the two escapings agree. -/
theorem escByte_eq {c : Nat} (hc : c < 0x7F) : escByte c = encodeChar c := by
  unfold escByte encodeChar
  cases shortEscape c with
  | some rep => rfl
  | none =>
      dsimp only
      by_cases hraw : 0x20 ≤ c
      · rw [if_neg (by omega), if_pos ⟨hraw, by omega⟩]
      · rw [if_pos (by omega), if_neg (by omega), if_pos (by omega)]

theorem flatMap_escByte {s : Text} (h : ∀ c ∈ s, c < 0x7F) :
    s.flatMap escByte = s.flatMap encodeChar := List.flatMap_congr fun c hc => escByte_eq (h c hc)

/-- The configured strings of an entry. -/
def strings (l : Entry) : Text :=
  l.game.bytes ++ l.server.bytes ++ l.region.bytes ++ l.serverurl.bytes ++ l.clientUrl.bytes

/-- No configured string contains DEL. -/
def NoDel (l : Entry) : Prop := 0x7F ∉ strings l

/-! The fixed parts of the format, as `json.dumps` puts them together. -/

/-- `, ` after a value, and the next key. -/
def nextKey (key : Text) : Text := text ", " ++ encode key ++ text ": "

theorem format_literals :
    text "\x7b\"game\": \"" = text "\x7b" ++ encode (text "game") ++ text ": " ++ text "\"" ∧
    text "\", \"appkey\": " = text "\"" ++ nextKey (text "appkey") ∧
    text ", \"server\": \"" = nextKey (text "server") ++ text "\"" ∧
    text "\", \"region\": \"" = text "\"" ++ nextKey (text "region") ++ text "\"" ∧
    text "\", \"serverurl\": \"" = text "\"" ++ nextKey (text "serverurl") ++ text "\"" ∧
    text "\", \"status\": \"" = text "\"" ++ nextKey (text "status") ++ text "\"" ∧
    text "\", \"maxplayers\": " = text "\"" ++ nextKey (text "maxplayers") ∧
    text ", \"curplayers\": " = nextKey (text "curplayers") ∧
    text ", \"clients\": [\x7b\"platform\": \"intv\", \"url\": \"" =
      nextKey (text "clients") ++ text "[" ++ text "\x7b" ++ encode (text "platform") ++
        text ": " ++ encode (text "intv") ++ nextKey (text "url") ++ text "\"" ∧
    text "\"\x7d]\x7d" = text "\"" ++ text "\x7d" ++ text "]" ++ text "\x7d" := by
  decide

theorem encode_status (offline : Bool) :
    encode (if offline then text "offline" else text "online") =
      text "\"" ++ (if offline then text "offline" else text "online") ++ text "\"" := by
  cases offline <;> rfl

/-- `json.dumps` of the payload is the format of `render_json` on its own escapes. -/
theorem dumps_payload (l : Entry) :
    dumps (.obj (payload l)) =
      formatJson l (l.game.bytes.flatMap encodeChar) (l.server.bytes.flatMap encodeChar)
        (l.region.bytes.flatMap encodeChar) (l.serverurl.bytes.flatMap encodeChar)
        (l.clientUrl.bytes.flatMap encodeChar) := by
  obtain ⟨h₁, h₂, h₃, h₄, h₅, h₆, h₇, h₈, h₉, h₁₀⟩ := format_literals
  have hstr : ∀ s : Copied strMax, encode s.bytes =
      text "\"" ++ s.bytes.flatMap encodeChar ++ text "\"" := fun _ => rfl
  have hregion : encode l.region.bytes =
      text "\"" ++ l.region.bytes.flatMap encodeChar ++ text "\"" := rfl
  unfold formatJson
  rw [h₁, h₂, h₃, h₄, h₅, h₆, h₇, h₈, h₉, h₁₀]
  simp only [payload, dumps, dumpsMembers, dumpsItems, encode_status, hstr, hregion, nextKey,
    List.append_assoc]

/-! ## The two texts -/

theorem rendered_eq {l : Entry} (h : NoDel l) : rendered l = dumps (.obj (payload l)) := by
  have hbelow : ∀ {sz : Nat} (s : Copied sz), (∀ c ∈ s.bytes, c ∈ strings l) →
      ∀ c ∈ s.bytes, c < 0x7F := by
    intro sz s hsub c hc
    have hne : c ≠ 0x7F := fun he => h (he ▸ hsub c hc)
    have hle := (s.ascii c hc).2
    omega
  rw [dumps_payload, rendered]
  rw [flatMap_escByte (hbelow l.game fun c hc => by simp [strings, hc]),
    flatMap_escByte (hbelow l.server fun c hc => by simp [strings, hc]),
    flatMap_escByte (hbelow l.region fun c hc => by simp [strings, hc]),
    flatMap_escByte (hbelow l.serverurl fun c hc => by simp [strings, hc]),
    flatMap_escByte (hbelow l.clientUrl fun c hc => by simp [strings, hc])]

/-- `json_esc` copies DEL into the text. -/
theorem del_mem_rendered {l : Entry} (h : 0x7F ∈ strings l) : 0x7F ∈ rendered l := by
  have hcopied : ∀ s : Text, 0x7F ∈ s → 0x7F ∈ s.flatMap escByte := by
    intro s hs
    exact List.mem_flatMap.mpr ⟨0x7F, hs, by decide⟩
  simp only [strings, List.mem_append] at h
  simp only [rendered, formatJson, List.mem_append]
  rcases h with (((h | h) | h) | h) | h
  all_goals simp only [hcopied _ h, true_or, or_true]

theorem rendered_eq_iff (l : Entry) : rendered l = dumps (.obj (payload l)) ↔ NoDel l := by
  constructor
  · intro h hdel
    have hmem := del_mem_rendered hdel
    rw [h] at hmem
    exact absurd (dumps_plain _ _ hmem) (by decide)
  · exact rendered_eq

/-- The text of the entry fits the body buffer. -/
def Fits (l : Entry) : Prop := (rendered l).length < jsonMax

instance (l : Entry) : Decidable (Fits l) := inferInstanceAs (Decidable (_ < _))

/-- A body that fits is the one `json.dumps` writes. -/
def SameBody (l : Entry) : Prop :=
  Fits l → renderJson l jsonMax = some (dumps (.obj (payload l)))

/-- No escape runs out of its buffer, and a body that fits is that of `json.dumps`
exactly when no configured string contains DEL. -/
theorem render_json_iff (l : Entry) : EscapesFit l ∧ (SameBody l ↔ (Fits l → NoDel l)) := by
  refine ⟨escapesFit l, ?_⟩
  apply forall_congr'
  intro hfits
  have hrender : renderJson l jsonMax = some (rendered l) := by
    rw [renderJson_eq]
    exact if_neg (Nat.not_le.mpr hfits)
  rw [hrender, Option.some.injEq]
  exact rendered_eq_iff l

/-- An entry whose game name is the given string. -/
def named (game : Copied strMax) : Entry :=
  { game, server := ⟨text "Relay", by decide, by decide⟩
    region := ⟨text "us", by decide, by decide⟩
    serverurl := ⟨text "tcp://relay:9113", by decide, by decide⟩
    clientUrl := ⟨text "tnfs://relay/shark.rom", by decide, by decide⟩
    appkey := 1, maxplayers := 2, curplayers := 0, offline := false }

/-- With a DEL in the game name the body is not that of `json.dumps`. -/
theorem render_json_del : ¬ ∀ l : Entry, EscapesFit l ∧ SameBody l := by
  intro hall
  have hbody := (hall (named ⟨[0x41, 0x7F], by decide, by decide⟩)).2
  have hfits : Fits (named ⟨[0x41, 0x7F], by decide, by decide⟩) := by decide +kernel
  have hrender := renderJson_eq (named ⟨[0x41, 0x7F], by decide, by decide⟩) jsonMax
  rw [if_neg (Nat.not_le.mpr hfits), hbody hfits, Option.some.injEq] at hrender
  exact (rendered_eq_iff _).mp hrender.symm (by decide)

end SharkNetplay.Lobby
