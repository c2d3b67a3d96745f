import JarAtlas.Files.Path

/-!
The categories of assets, told from the folder in which an asset lies.
-/

namespace JarAtlas.Assets

def categoryFolders : List (String × String) := [
  ("Audio/AmbienceFX", "AmbienceFX"),
  ("Item/Block/Hitboxes", "BlockHitbox"),
  ("Item/Block/Sets", "BlockSet"),
  ("Item/Block/Sounds", "BlockSound"),
  ("Audio/ItemSounds", "ItemSound"),
  ("Item/Block/Particles", "BlockParticle"),
  ("Item/Block/BreakingDecals", "BlockDecal"),
  ("Item/Block/Blocks", "Block"),
  ("Item/Block/Fluids", "Fluid"),
  ("Item/Animations", "ItemAnimation"),
  ("Environments", "Environment"),
  ("Item/Category/CreativeLibrary", "CreativeCategory"),
  ("Item/Category/Fieldcraft", "FieldcraftCategory"),
  ("Drops", "Drop"),
  ("WordLists", "WordList"),
  ("Item/Reticles", "Reticle"),
  ("PortalTypes", "Portal"),
  ("Item/Items", "Item"),
  ("Item/Recipes", "Recipe"),
  ("Models", "Model"),
  ("Particles", "Particle"),
  ("Entity/Trails", "Trail"),
  ("Projectiles", "Projectile"),
  ("Entity/Effects", "Effect"),
  ("Entity/ModelVFX", "ModelVFX"),
  ("Entity/GameMode", "GameMode"),
  ("Item/ResourceTypes", "ResourceType"),
  ("Weathers", "Weather"),
  ("GameplayConfigs", "GameplayConfig"),
  ("Audio/SoundEvents", "SoundEvent"),
  ("Audio/SoundSets", "SoundSet"),
  ("Audio/AudioCategories", "AudioCategory"),
  ("Audio/Reverb", "Reverb"),
  ("Audio/EQ", "EQ"),
  ("ResponseCurves", "ResponseCurve"),
  ("Item/Qualities", "ItemQuality"),
  ("Entity/Damage", "DamageType"),
  ("ProjectileConfigs", "ProjectileConfig"),
  ("Item/Groups", "ItemGroup"),
  ("Camera/CameraEffect", "CameraEffect"),
  ("TagPatterns", "TagPattern"),
  ("BlockTextures", "BlockTexture"),
  ("Items", "ItemTexture"),
  ("Characters", "CharacterTexture"),
  ("Sky", "SkyTexture"),
  ("UI", "UITexture")]

def categoryAmong (folders : List (String × String)) (path : String) : Option String :=
  let name := (Path.parse path).text
  (folders.find? fun (folder, _) => Text.startsWith name (folder ++ "/")).map (·.2)

def category (path : String) : Option String :=
  categoryAmong categoryFolders path

end JarAtlas.Assets
