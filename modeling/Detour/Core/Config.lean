import Detour.Core.Provider

/-! Which settings are accepted. -/

namespace Detour.Core

open Detour.Rust

structure Config where
  listen : Text
  providers : List Provider
  deriving DecidableEq

inductive Invalid
  | noProviders
  | unnamedProvider
  | notHttps (name : Text)
  | noBootstrap (name : Text)
  | listen (text : Text)
  deriving DecidableEq

/-- `debug` writes a text as `{:?}` does. -/
def Invalid.display (debug : Text → String) : Invalid → String
  | .noProviders => "at least one DoH provider is required"
  | .unnamedProvider => "every provider needs a name"
  | .notHttps name => String.ofList name ++ ": the URL must start with https://"
  | .noBootstrap name => String.ofList name ++
      ": needs at least one bootstrap IP, so resolving the provider " ++
      "never depends on DNS that is itself being redirected here"
  | .listen text => "listen address " ++ debug text ++ " is not IP:port"

def Provider.validate (p : Provider) : Except Invalid Unit :=
  if trim p.name = [] then .error .unnamedProvider
  else if p.host = none then .error (.notHttps p.name)
  else if p.bootstrap = [] then .error (.noBootstrap p.name)
  else .ok ()

def Config.validateListen (c : Config) : Except Invalid Unit :=
  match parseSocketAddr c.listen with
  | some _ => .ok ()
  | none => .error (.listen c.listen)

def Config.validate (c : Config) : Except Invalid Unit :=
  if c.providers = [] then .error .noProviders
  else do
    c.providers.forM Provider.validate
    c.validateListen

theorem Config.listen_of_validate {c : Config} (h : c.validate = .ok ()) :
    ∃ addr, parseSocketAddr c.listen = some addr := by
  unfold Config.validate at h
  split at h
  · cases h
  · cases hproviders : c.providers.forM Provider.validate with
    | error e =>
      rw [hproviders] at h
      cases h
    | ok _ =>
      rw [hproviders] at h
      change c.validateListen = .ok () at h
      unfold Config.validateListen at h
      split at h
      · exact ⟨_, ‹_›⟩
      · cases h

end Detour.Core
